import Uppercut.Core.EventLoop

/-!
# One address on its own

Seen from a single tag, the scheduler is a small automaton: is the tag active, which
instance is idle, which envelopes wait. `Address.step` says how it answers the
actions of its own tag. The scheduler is the product of these automata: an action
moves the address it names by `Address.step` and leaves every other one alone
(`Arm.address_self`, `Arm.address_other`).

The map lookups of the event loop succeed because each address is well formed: it
has a mailbox exactly when it is active.
-/

namespace Uppercut

/-- What the scheduler keeps for one tag. -/
structure Address where
  active : Bool
  idle : Option Actor
  queue : Option (List Envelope)
  deriving DecidableEq

namespace Address

/-- A tag nothing was ever spawned under. -/
def vacant : Address := ⟨false, none, none⟩

/-- The envelopes that wait. -/
def mailbox (c : Address) : List Envelope := c.queue.getD []

/-- How an address answers an action that names it. -/
def step (c : Address) : Action → Address × Option Event
  | .return tag actor ok =>
      match c.active, ok, c.queue with
      | true, false, _ => ({ c with active := false, queue := none }, none)
      | true, true, some (envelope :: rest) =>
          ({ c with queue := some rest }, some (.mail tag actor envelope))
      | true, true, _ => ({ c with idle := some actor }, none)
      | false, _, _ => ({ c with queue := none }, if ok then some (.stop tag actor) else none)
  | .queue tag envelope =>
      match c.active, c.queue, c.idle with
      | true, some mailbox, some actor =>
          match mailbox ++ [envelope] with
          | [] => (c, none)
          | front :: rest =>
              ({ c with idle := none, queue := some rest }, some (.mail tag actor front))
      | true, some mailbox, none => ({ c with queue := some (mailbox ++ [envelope]) }, none)
      | _, _, _ => (c, none)
  | .spawn _ actor => if c.active then (c, none) else (⟨true, some actor, some []⟩, none)
  | .stop tag =>
      if c.active then (⟨false, none, none⟩, c.idle.map (Event.stop tag)) else (c, none)
  | .delay _ | .logs _ _ | .metrics _ | .shutdown => (c, none)

/-- A mailbox exists exactly while the address is active, and it is empty while an
instance is idle. -/
structure WellFormed (c : Address) : Prop where
  keys : c.queue.isSome = c.active
  rested : c.active = true → c.idle.isSome → c.queue = some []

theorem wellFormed_vacant : vacant.WellFormed := ⟨rfl, fun active => by cases active⟩

theorem WellFormed.step {c : Address} (wf : c.WellFormed) (action : Action) :
    (c.step action).1.WellFormed := by
  obtain ⟨active, idle, queue⟩ := c
  obtain ⟨keys, rested⟩ := wf
  cases action with
  | «return» tag actor ok =>
      cases active <;> cases ok <;> cases queue with
      | none => constructor <;> simp_all [Address.step]
      | some mailbox => cases mailbox <;> constructor <;> simp_all [Address.step]
  | queue tag envelope =>
      cases active <;> cases idle <;> cases queue with
      | none => constructor <;> simp_all [Address.step]
      | some mailbox => cases mailbox <;> constructor <;> simp_all [Address.step]
  | spawn tag actor => cases active <;> constructor <;> simp_all [Address.step]
  | stop tag => cases active <;> constructor <;> simp_all [Address.step]
  | delay | logs | metrics | shutdown => exact ⟨keys, rested⟩

end Address

/-- The part of the scheduler that belongs to one tag. -/
def Scheduler.address (s : Scheduler) (tag : Tag) : Address :=
  ⟨decide (tag ∈ s.active), s.actors tag, s.queue tag⟩

namespace Scheduler

@[simp] theorem address_withConfig (config : SchedulerConfig) (tag : Tag) :
    (withConfig config).address tag = .vacant := rfl

@[simp] theorem address_active {s : Scheduler} {tag : Tag} :
    (s.address tag).active = true ↔ tag ∈ s.active := by
  simp [address]

@[simp] theorem address_idle (s : Scheduler) (tag : Tag) :
    (s.address tag).idle = s.actors tag := rfl

@[simp] theorem address_queue (s : Scheduler) (tag : Tag) :
    (s.address tag).queue = s.queue tag := rfl

/-- Every address of the scheduler is well formed. -/
def WellFormed (s : Scheduler) : Prop := ∀ tag, (s.address tag).WellFormed

theorem wellFormed_withConfig (config : SchedulerConfig) : (withConfig config).WellFormed :=
  fun _ => Address.wellFormed_vacant

variable {s : Scheduler} {tag : Tag}

theorem WellFormed.queue_of_active (wf : s.WellFormed) (active : tag ∈ s.active) :
    ∃ mailbox, s.queue tag = some mailbox := by
  have keys := (wf tag).keys
  simp only [address, active, decide_true] at keys
  exact Option.isSome_iff_exists.mp keys

theorem WellFormed.queue_of_inactive (wf : s.WellFormed) (inactive : tag ∉ s.active) :
    s.queue tag = none := by
  have keys := (wf tag).keys
  simp only [address, inactive, decide_false] at keys
  exact Option.not_isSome_iff_eq_none.mp (by simp [keys])

theorem WellFormed.queue_of_idle (wf : s.WellFormed) (active : tag ∈ s.active) {actor : Actor}
    (idle : s.actors tag = some actor) : s.queue tag = some [] :=
  (wf tag).rested (address_active.mpr active) (by simp [idle])

end Scheduler

namespace Arm

variable {s s' : Scheduler} {action : Action} {event : Option Event} {flow : Flow} {tag : Tag}

/-- The address an action names moves by its own automaton. -/
theorem address_self (arm : Arm s action s' event flow) (named : action.tag? = some tag) :
    (s.address tag).step action = (s'.address tag, event) := by
  cases arm <;> simp only [Action.tag?, Option.some.injEq, reduceCtorEq] at named
  case failed active => subst named; simp [Scheduler.address, Address.step, active]
  case resumed active waiting =>
    subst named; simp [Scheduler.address, Address.step, active, waiting]
  case rested active waiting =>
    subst named; simp [Scheduler.address, Address.step, active, waiting]
  case stale inactive => subst named; simp [Scheduler.address, Address.step, inactive]
  case spent inactive => subst named; simp [Scheduler.address, Address.step, inactive]
  case woken active waiting idle pushed =>
    subst named; simp [Scheduler.address, Address.step, active, waiting, idle, pushed]
  case queued active waiting busy =>
    subst named; simp [Scheduler.address, Address.step, active, waiting, busy]
  case spawned inactive => subst named; simp [Scheduler.address, Address.step, inactive]
  case stoppedIdle active idle => subst named; simp [Scheduler.address, Address.step, active, idle]
  case stoppedBusy active busy => subst named; simp [Scheduler.address, Address.step, active, busy]
  case undelivered inactive => subst named; simp [Scheduler.address, Address.step, inactive]
  case refused active => subst named; simp [Scheduler.address, Address.step, active]
  case unstopped inactive => subst named; simp [Scheduler.address, Address.step, inactive]

/-- Every other address is left alone, and the event is not about it. -/
theorem address_other (arm : Arm s action s' event flow) (other : action.tag? ≠ some tag) :
    s'.address tag = s.address tag ∧ event.bind Event.tag? ≠ some tag := by
  cases arm <;> simp only [Action.tag?, ne_eq, Option.some.injEq, reduceCtorEq] at other
  all_goals first
    | exact ⟨rfl, by simp⟩
    | have ne : tag ≠ _ := fun eq => other eq.symm
      simp [Scheduler.address, Table.remove_ne _ ne, Table.insert_ne _ _ ne, Event.tag?, other, ne]

theorem wellFormed (arm : Arm s action s' event flow) (wf : s.WellFormed) : s'.WellFormed := by
  intro tag
  by_cases named : action.tag? = some tag
  · simpa [arm.address_self named] using (wf tag).step action
  · rw [(arm.address_other named).1]
    exact wf tag

end Arm

/-- On a well formed scheduler no `unwrap` of the event loop fails. -/
theorem EventLoop.handle_isSome {l : EventLoop} (wf : l.scheduler.WellFormed) (action : Action) :
    (l.handle action).isSome := by
  cases action with
  | «return» tag actor ok =>
      by_cases active : tag ∈ l.scheduler.active
      · obtain ⟨mailbox, waiting⟩ := wf.queue_of_active active
        cases ok <;> cases mailbox <;> simp [handle, active, waiting]
      · simp [handle, active]
  | queue tag envelope =>
      by_cases active : tag ∈ l.scheduler.active
      · obtain ⟨mailbox, waiting⟩ := wf.queue_of_active active
        cases idle : l.scheduler.actors tag <;> cases mailbox <;>
          simp [handle, active, waiting, idle]
      · simp [handle, active]
  | stop tag =>
      by_cases active : tag ∈ l.scheduler.active
      · cases idle : l.scheduler.actors tag <;> simp [handle, active, idle]
      · simp [handle, active]
  | spawn tag actor => by_cases active : tag ∈ l.scheduler.active <;> simp [handle, active]
  | delay | logs | metrics | shutdown => rfl

theorem LoopMove.wellFormed {phase phase' : Phase} {s s' : Scheduler} {label : LoopLabel}
    {seen : List Obs} (move : LoopMove phase s label phase' s' seen) (wf : s.WellFormed) :
    s'.WellFormed := by
  cases move with
  | crashed | unsent | timeout | clock | tick => exact wf
  | received _ arm => exact arm.wellFormed wf
  | release => exact wf

end Uppercut
