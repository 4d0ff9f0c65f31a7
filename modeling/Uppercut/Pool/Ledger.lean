import Uppercut.Machine.History
import Uppercut.Pool

/-!
# The ledger of a pool

What was received from the channel and what waits there is what was put on it, in that order.
Only a marker ends a thread, one marker ends one thread, and what was submitted before the drop is
in front of all markers. All this as long as no task takes its thread down.
-/

namespace Uppercut

namespace ThreadPool

variable {τ : Type}

/-! ## What is seen of a pool -/

def Job.task? : Job τ → Option τ
  | .task f => some f
  | .stop => none

def Job.isStop : Job τ → Bool
  | .task _ => false
  | .stop => true

def tasks (jobs : List (Job τ)) : List τ := jobs.filterMap Job.task?

def stops (jobs : List (Job τ)) : Nat := jobs.countP Job.isStop

namespace Obs

def submitted? : Obs τ → Option τ
  | .submitted f => some f
  | _ => none

/-- The job that a thread has received. -/
def job? : Obs τ → Option (Job τ)
  | .started _ f => some (.task f)
  | .stopped _ => some .stop
  | _ => none

def startedOn? (index : Nat) : Obs τ → Option τ
  | .started i f => if i = index then some f else none
  | _ => none

def finishedOn? (index : Nat) : Obs τ → Option τ
  | .finished i f _ => if i = index then some f else none
  | _ => none

def stoppedOn (index : Nat) : Obs τ → Bool
  | .stopped i => decide (i = index)
  | _ => false

def drops : Obs τ → Bool
  | .dropping => true
  | _ => false

end Obs

/-- The tasks that were put on the channel. -/
def submitted (h : List (Obs τ)) : List τ := h.filterMap Obs.submitted?

/-- Those of them that were put there before the drop began. -/
def early (h : List (Obs τ)) : List τ := submitted (h.takeWhile fun x => !x.drops)

/-- What the threads have received. -/
def received (h : List (Obs τ)) : List (Job τ) := h.filterMap Obs.job?

/-- The tasks that the threads have received, each of which is run then. -/
def started (h : List (Obs τ)) : List τ := tasks (received h)

def startedOn (index : Nat) (h : List (Obs τ)) : List τ := h.filterMap (Obs.startedOn? index)

def finishedOn (index : Nat) (h : List (Obs τ)) : List τ := h.filterMap (Obs.finishedOn? index)

/-- The markers that a thread has received. -/
def stopsOn (index : Nat) (h : List (Obs τ)) : Nat := h.countP (Obs.stoppedOn index)

def Thread.task? : Thread τ → Option τ
  | .running f => some f
  | .receiving | .exited | .crashed => none

/-- The tasks that wait in the channel. -/
def waiting (pool : ThreadPool τ) : List τ := tasks pool.queue

def Thread.ended (thread : Thread τ) : Bool := !thread.alive

/-- The task that a thread is running. -/
def task? (pool : ThreadPool τ) (index : Nat) : Option τ := pool.workers[index]?.bind Thread.task?

def alive (pool : ThreadPool τ) (index : Nat) : Bool := pool.workers[index]?.any Thread.alive

/-- The tasks that were submitted first have been started, and what was started by then is
finished. -/
def Executed (first : List τ) (h : List (Obs τ)) : Prop :=
  ∃ k, k <+: h ∧ first <+: started k ∧ ∀ index, startedOn index k <+: finishedOn index h

section Append

variable (h k : List (Obs τ)) (jobs more : List (Job τ)) (index : Nat)

@[simp] theorem tasks_append : tasks (jobs ++ more) = tasks jobs ++ tasks more :=
  List.filterMap_append

@[simp] theorem stops_append : stops (jobs ++ more) = stops jobs + stops more := List.countP_append

@[simp] theorem submitted_append : submitted (h ++ k) = submitted h ++ submitted k :=
  List.filterMap_append

@[simp] theorem received_append : received (h ++ k) = received h ++ received k :=
  List.filterMap_append

@[simp] theorem startedOn_append :
    startedOn index (h ++ k) = startedOn index h ++ startedOn index k := List.filterMap_append

@[simp] theorem finishedOn_append :
    finishedOn index (h ++ k) = finishedOn index h ++ finishedOn index k := List.filterMap_append

@[simp] theorem stopsOn_append : stopsOn index (h ++ k) = stopsOn index h + stopsOn index k :=
  List.countP_append

end Append

@[simp] theorem tasks_map (l : List τ) : tasks (l.map .task) = l := by
  rw [tasks, List.filterMap_map]
  exact List.filterMap_some

@[simp] theorem stops_map (l : List τ) : stops (l.map .task) = 0 := by
  rw [stops, List.countP_map]
  exact List.countP_eq_zero.mpr fun _ _ => Bool.false_ne_true

/-- Without markers there are only tasks. -/
theorem map_tasks {jobs : List (Job τ)} (none : stops jobs = 0) :
    (tasks jobs).map .task = jobs := by
  induction jobs with
  | nil => rfl
  | cons job jobs ih =>
      cases job with
      | task f => exact congrArg (Job.task f :: ·) (ih none)
      | stop => simp [stops, Job.isStop] at none

theorem early_of_mem {h : List (Obs τ)} (dropped : .dropping ∈ h) (k : List (Obs τ)) :
    early (h ++ k) = early h := by
  have whole : (h.takeWhile fun x => !x.drops).length ≠ h.length := by
    intro all
    have same := (List.takeWhile_prefix _).eq_of_length all
    cases List.takeWhile_eq_self_iff.mp same _ dropped
  rw [early, List.takeWhile_append, if_neg whole, early]

theorem takeWhile_of_notMem {h : List (Obs τ)} (held : .dropping ∉ h) :
    (h.takeWhile fun x => !x.drops) = h := by
  apply List.takeWhile_eq_self_iff.mpr
  intro x mem
  cases x with
  | dropping => exact absurd mem held
  | _ => rfl

theorem early_submitted (h : List (Obs τ)) : early h <+: submitted h :=
  (List.takeWhile_prefix _).filterMap _

theorem early_append (h k : List (Obs τ)) : early h <+: early (h ++ k) := by
  by_cases dropped : .dropping ∈ h
  · rw [early_of_mem dropped]
  · rw [early, early, List.takeWhile_append, takeWhile_of_notMem dropped, if_pos rfl,
      submitted_append]
    exact List.prefix_append _ _

/-! ## What one step does -/

/-- The number of markers sent by the drop. -/
def Lifetime.marks (size : Nat) : Lifetime → Nat
  | .held => 0
  | .dropping sent _ => sent
  | .dropped | .panicked => size

section Steps

variable {s t : ThreadPool τ} {label : Label τ} {seen : List (Obs τ)} {index i : Nat}

/-- No task panics with a value whose drop panics. -/
def Contained (_ : ThreadPool τ) (_ : List (Obs τ)) : Label τ → Prop
  | .burst _ => False
  | _ => True

instance (s : ThreadPool τ) (h : List (Obs τ)) (label : Label τ) :
    Decidable (Contained s h label) := by
  unfold Contained
  split <;> infer_instance

theorem workers_set {old new : Thread τ} (known : s.workers[index]? = some old)
    (moved : t.workers = s.workers.set index new) (i : Nat) :
    t.workers[i]? = if index = i then some new else s.workers[i]? := by
  obtain ⟨inside, _⟩ := List.getElem?_eq_some_iff.mp known
  rw [moved, List.getElem?_set, if_pos inside]

theorem alive_eq {thread : Thread τ} (known : s.workers[index]? = some thread) :
    s.alive index = thread.alive := by
  rw [alive, known, Option.any_some]

/-- The channel is a queue: what was received and what waits is what was put there. -/
theorem Step.channel (step : Step s label t seen) :
    ∃ new, received seen ++ t.queue = s.queue ++ new ∧ tasks new = submitted seen ∧
      (t.lifetime.marks s.size = s.lifetime.marks s.size + stops new ∨
        t.lifetime = .panicked) := by
  cases step with
  | @put f => exact ⟨[.task f], rfl, rfl, .inl rfl⟩
  | begun _ head | ended _ head => exact ⟨[], by rw [head, List.append_nil]; rfl, rfl, .inl rfl⟩
  | marked phase =>
      refine ⟨[.stop], rfl, rfl, .inl ?_⟩
      rw [phase]
      rfl
  | dropping phase | joined phase | returned phase =>
      refine ⟨[], (List.append_nil _).symm, rfl, .inl ?_⟩
      rw [phase]
      rfl
  | lost | failed => exact ⟨[], (List.append_nil _).symm, rfl, .inr rfl⟩
  | unsent | linked | finished | burst | hungUp =>
      exact ⟨[], (List.append_nil _).symm, rfl, .inl rfl⟩

/-- A change of one thread that agrees with what is seen of it. -/
theorem turns_of_set {old new : Thread τ} (known : s.workers[index]? = some old)
    (moved : t.workers = s.workers.set index new)
    (own : old.task?.toList ++ startedOn index seen = finishedOn index seen ++ new.task?.toList)
    (others : ∀ i, index ≠ i → startedOn i seen = [] ∧ finishedOn i seen = []) (i : Nat) :
    (s.task? i).toList ++ startedOn i seen = finishedOn i seen ++ (t.task? i).toList := by
  rw [task?, task?, workers_set known moved]
  by_cases same : index = i
  · subst same
    rw [if_pos rfl, known, Option.bind_some, Option.bind_some, own]
  · obtain ⟨none, none'⟩ := others i same
    rw [if_neg same, none, none', List.append_nil, List.nil_append]

/-- A thread finishes what it is running before it starts another task. -/
theorem Step.turns (step : Step s label t seen) (i : Nat) :
    (s.task? i).toList ++ startedOn i seen = finishedOn i seen ++ (t.task? i).toList := by
  cases step with
  | begun known | finished known | burst known =>
      refine turns_of_set known rfl ?_ ?_ i
      · simp [startedOn, finishedOn, Obs.startedOn?, Obs.finishedOn?, Thread.task?,
          List.filterMap_cons]
      · intro i other
        simp [startedOn, finishedOn, Obs.startedOn?, Obs.finishedOn?, List.filterMap_cons, other]
  | ended known => exact turns_of_set known rfl rfl (fun _ _ => ⟨rfl, rfl⟩) i
  | hungUp known => exact turns_of_set known rfl rfl (fun _ _ => ⟨rfl, rfl⟩) i
  | put | unsent | linked | dropping | marked | lost | joined | failed | returned =>
      exact List.append_nil _

theorem Step.size_eq (step : Step s label t seen) : t.size = s.size := by
  cases step with
  | begun | ended | finished | burst | hungUp => exact List.length_set
  | put | unsent | linked | dropping | marked | lost | joined | failed | returned => rfl

/-- A thread that goes on was there before. -/
theorem Step.alive_of (step : Step s label t seen) (still : t.alive i = true) :
    s.alive i = true := by
  have was {index : Nat} {old new : Thread τ} (known : s.workers[index]? = some old)
      (here : old.alive = true)
      (moved : t.workers = s.workers.set index new) : s.alive i = true := by
    by_cases own : index = i
    · subst own
      exact (alive_eq known).trans here
    · rwa [alive, workers_set known moved, if_neg own] at still
  cases step with
  | begun known | ended known | finished known | burst known | hungUp known =>
      exact was known rfl rfl
  | put | unsent | linked | dropping | marked | lost | joined | failed | returned => exact still

/-- The threads that have ended. -/
def endings (pool : ThreadPool τ) : Nat := pool.workers.countP Thread.ended

theorem endings_set {old new : Thread τ} (known : s.workers[index]? = some old)
    (here : old.alive = true) (moved : t.workers = s.workers.set index new) :
    t.endings = s.endings + new.ended.toNat := by
  obtain ⟨inside, same⟩ := List.getElem?_eq_some_iff.mp known
  rw [endings, moved, List.countP_set inside, same, Thread.ended, here, Bool.not_true,
    if_neg Bool.false_ne_true, Nat.sub_zero, endings]
  cases new.ended <;> rfl

theorem endings_eq_size : s.endings = s.size ↔ ∀ i, s.alive i = false := by
  rw [endings, size, List.countP_eq_length]
  constructor
  · intro all i
    cases known : s.workers[i]? with
    | none => rw [alive, known, Option.any_none]
    | some thread =>
        rw [alive_eq known]
        exact (Bool.not_eq_true' _).mp (all thread (List.mem_of_getElem? known))
  · intro all thread mem
    obtain ⟨i, known⟩ := List.mem_iff_getElem?.mp mem
    exact (Bool.not_eq_true' _).mpr ((alive_eq known).symm.trans (all i))

/-- A change of one thread that agrees with the markers that are seen. -/
theorem ends_of_set {old new : Thread τ} (known : s.workers[index]? = some old)
    (here : old.alive = true) (moved : t.workers = s.workers.set index new)
    (whole : new ≠ .crashed) (ends : new.ended.toNat = stops (received seen))
    (own : ∀ i, stopsOn i seen = if index = i then new.ended.toNat else 0) :
    t.endings = s.endings + stops (received seen) ∧
      (∀ i, (!t.alive i).toNat = (!s.alive i).toNat + stopsOn i seen) ∧
      (Thread.crashed ∈ t.workers → Thread.crashed ∈ s.workers) := by
  refine ⟨by rw [endings_set known here moved, ends], ?_, ?_⟩
  · intro i
    rw [alive, workers_set known moved, own]
    by_cases same : index = i
    · subst same
      rw [if_pos rfl, if_pos rfl, alive_eq known, here]
      exact (Nat.zero_add _).symm
    · rw [if_neg same, if_neg same]
      rfl
  · intro crashed
    obtain old | own := List.mem_or_eq_of_mem_set (moved ▸ crashed)
    · exact old
    · exact absurd own.symm whole

/-- Threads end by markers, unless a task bursts or the channel is closed. -/
theorem Step.ends (step : Step s label t seen) (contained : ∀ index, label ≠ .burst index)
    (connects : ∀ index, label ≠ .hangUp index) :
    t.endings = s.endings + stops (received seen) ∧
      (∀ i, (!t.alive i).toNat = (!s.alive i).toNat + stopsOn i seen) ∧
      (Thread.crashed ∈ t.workers → Thread.crashed ∈ s.workers) := by
  cases step with
  | begun known | finished known =>
      refine ends_of_set known rfl rfl nofun rfl fun i => ?_
      split <;> rfl
  | @ended index _ known =>
      refine ends_of_set known rfl rfl nofun rfl fun i => ?_
      by_cases own : index = i
      · simp [stopsOn, Obs.stoppedOn, own, Thread.ended, Thread.alive]
      · simp [stopsOn, Obs.stoppedOn, own]
  | burst => exact absurd rfl (contained _)
  | hungUp => exact absurd rfl (connects _)
  | put | unsent | linked | dropping | marked | lost | joined | failed | returned =>
      exact ⟨rfl, fun _ => rfl, id⟩

end Steps

/-! ## The ledger -/

/-- The pool against what was seen of it, as long as no task bursts. -/
structure Sound (size : Nat) (s : ThreadPool τ) (h : List (Obs τ)) : Prop where
  sized : s.size = size
  accounted : submitted h = started h ++ s.waiting
  early : (early h).map .task <+: received h ++ s.queue
  marks : stops (received h ++ s.queue) = s.lifetime.marks size
  ended : s.endings = stops (received h)
  stopped : ∀ i < size, stopsOn i h = (!s.alive i).toNat
  turns : ∀ i, startedOn i h = finishedOn i h ++ (s.task? i).toList
  whole : Thread.crashed ∉ s.workers
  calm : s.lifetime ≠ .panicked
  held : s.lifetime = .held ↔ .dropping ∉ h
  sending : ∀ sent joined, s.lifetime = .dropping sent joined →
    sent ≤ size ∧ joined ≤ size ∧ (0 < joined → sent = size) ∧ ∀ i < joined, s.alive i = false
  dropped : s.lifetime = .dropped → .returned ∈ h ∧ ∀ i, s.alive i = false

section Ledger

variable {size : Nat} {s t : ThreadPool τ} {h seen : List (Obs τ)} {label : Label τ}

/-- What waits is behind what was received. -/
theorem Sound.stops_le (sound : Sound size s h) :
    stops (received h) ≤ s.lifetime.marks size := by
  rw [← sound.marks, stops_append]
  exact Nat.le_add_right _ _

/-- A thread goes on as long as there are fewer markers than threads. -/
theorem Sound.exists_alive (sound : Sound size s h) (few : stops (received h) < size) :
    ∃ (i : Nat) (thread : Thread τ), s.workers[i]? = some thread ∧ thread.alive = true := by
  have some_left : s.endings ≠ s.size := by
    rw [sound.ended, sound.sized]
    exact few.ne
  obtain ⟨i, here⟩ := not_forall.mp (mt endings_eq_size.mpr some_left)
  exact ⟨i, (Option.any_eq_true _ _).mp (Bool.eq_true_of_not_eq_false here)⟩

theorem Sound.connected (sound : Sound size s h) (few : stops (received h) < size) :
    s.connected = true := by
  obtain ⟨i, thread, known, here⟩ := sound.exists_alive few
  exact List.any_eq_true.mpr ⟨thread, List.mem_of_getElem? known, here⟩

/-- When all markers have been received, all threads have ended. -/
theorem Sound.all_ended (sound : Sound size s h) (all : size ≤ stops (received h)) (i : Nat) :
    s.alive i = false := by
  have most : s.endings ≤ s.size := List.countP_le_length
  refine endings_eq_size.mp (most.antisymm ?_) i
  rw [sound.ended, sound.sized]
  exact all

theorem Sound.exited (sound : Sound size s h) (all : size ≤ stops (received h)) {i : Nat}
    (inside : i < s.size) : s.workers[i]? = some .exited := by
  have known : s.workers[i]? = some s.workers[i] := List.getElem?_eq_getElem inside
  have ended := sound.all_ended all i
  rw [alive_eq known] at ended
  rw [known]
  cases thread : s.workers[i] with
  | exited => rfl
  | crashed => exact absurd (thread ▸ List.getElem_mem inside) sound.whole
  | receiving | running =>
      rw [thread] at ended
      cases ended

/-- A drop that has begun goes on, or it has returned. -/
theorem Sound.lifetime_cases (sound : Sound size s h) (begun : .dropping ∈ h) :
    (∃ sent joined, s.lifetime = .dropping sent joined) ∨ s.lifetime = .dropped := by
  cases phase : s.lifetime with
  | held => exact absurd begun (sound.held.mp phase)
  | dropping sent joined => exact .inl ⟨sent, joined, rfl⟩
  | dropped => exact .inr rfl
  | panicked => exact absurd phase sound.calm

/-- Neither the channel is closed nor does the drop panic. -/
theorem Sound.calm_step (sound : Sound size s h) (step : Step s label t seen) :
    (∀ index, label ≠ .hangUp index) ∧ t.lifetime ≠ .panicked := by
  cases step with
  | put _ caller | unsent _ caller =>
      refine ⟨fun index same => ?_, sound.calm⟩
      simp [same] at caller
  | linked caller =>
      refine ⟨fun index same => ?_, sound.calm⟩
      simp [same] at caller
  | begun | ended | finished | burst =>
      exact ⟨fun _ => nofun, sound.calm⟩
  | @hungUp index known gone =>
      have ends := (sound.dropped (gone.resolve_right sound.calm)).2 index
      rw [alive_eq known] at ends
      cases ends
  | dropping | marked | joined | returned =>
      exact ⟨fun _ => nofun, nofun⟩
  | @lost sent joined phase few closed =>
      have marks := sound.stops_le
      rw [phase] at marks
      have here := sound.connected (marks.trans_lt (sound.sized ▸ few))
      rw [closed] at here
      cases here
  | failed _ known => exact absurd (List.mem_of_getElem? known) sound.whole

/-- What one step puts on the channel is behind what was put there before. -/
theorem Sound.channel (sound : Sound size s h) (step : Step s label t seen) :
    ∃ new, received (h ++ seen) ++ t.queue = received h ++ s.queue ++ new ∧
      tasks new = submitted seen ∧ t.lifetime.marks size = s.lifetime.marks size + stops new := by
  obtain ⟨new, split, put, marks⟩ := step.channel
  rw [sound.sized] at marks
  refine ⟨new, ?_, put, marks.resolve_right (sound.calm_step step).2⟩
  rw [received_append, List.append_assoc, split, List.append_assoc]

/-- Before the drop there are no markers. -/
theorem Step.marks_of_held (step : Step s label t seen) (held : s.lifetime = .held) :
    t.lifetime.marks size = 0 := by
  cases step with
  | put | unsent | linked | begun | ended | finished | burst =>
      show s.lifetime.marks size = 0
      rw [held]
      rfl
  | hungUp _ gone => obtain gone | gone := gone <;> cases held.symm.trans gone
  | dropping => rfl
  | marked phase | lost phase | joined phase | failed phase | returned phase =>
      cases held.symm.trans phase

theorem Sound.early_step (sound : Sound size s h) (step : Step s label t seen) :
    (ThreadPool.early (h ++ seen)).map .task <+: received (h ++ seen) ++ t.queue := by
  obtain ⟨new, split, put, marks⟩ := sound.channel step
  rw [split]
  by_cases dropped : .dropping ∈ h
  · rw [early_of_mem dropped]
    exact sound.early.trans (List.prefix_append _ _)
  · have none : stops (received h ++ s.queue ++ new) = 0 := by
      rw [stops_append, sound.marks, ← marks]
      exact step.marks_of_held (sound.held.mpr dropped)
    have all : submitted (h ++ seen) = tasks (received h ++ s.queue ++ new) := by
      rw [submitted_append, sound.accounted, tasks_append, tasks_append, put]
      rfl
    rw [← map_tasks none, ← all]
    exact (early_submitted _).map _

theorem Sound.held_step (sound : Sound size s h) (step : Step s label t seen)
    (calm : t.lifetime ≠ .panicked) : t.lifetime = .held ↔ .dropping ∉ h ++ seen := by
  have before := sound.held
  cases step with
  | put | unsent | linked | begun | ended | finished | burst | hungUp =>
      simpa [withThread] using before
  | dropping => simp
  | marked phase | joined phase | returned phase =>
      rw [phase] at before
      simpa using before
  | lost | failed => exact absurd rfl calm

theorem Sound.sending_step (sound : Sound size s h) (step : Step s label t seen) (sent joined : Nat)
    (phase' : t.lifetime = .dropping sent joined) :
    sent ≤ size ∧ joined ≤ size ∧ (0 < joined → sent = size) ∧ ∀ i < joined, t.alive i = false := by
  have dead (i : Nat) (gone : s.alive i = false) : t.alive i = false :=
    Bool.eq_false_iff.mpr fun still => Bool.false_ne_true (gone.symm.trans (step.alive_of still))
  have same (before : s.lifetime = .dropping sent joined) :
      sent ≤ size ∧ joined ≤ size ∧ (0 < joined → sent = size) ∧
        ∀ i < joined, t.alive i = false := by
    obtain ⟨most, few, all, ended⟩ := sound.sending sent joined before
    exact ⟨most, few, all, fun i inside => dead i (ended i inside)⟩
  cases step with
  | put | unsent | linked | begun | ended | finished | burst | hungUp => exact same phase'
  | dropping =>
      cases phase'
      exact ⟨Nat.zero_le _, Nat.zero_le _, fun some => absurd some (Nat.lt_irrefl 0),
        fun i inside => absurd inside (Nat.not_lt_zero i)⟩
  | marked phase few =>
      cases phase'
      rw [sound.sized] at few
      obtain ⟨_, low, all, ended⟩ := sound.sending _ _ phase
      exact ⟨few, low, fun some => absurd (all some) few.ne, ended⟩
  | joined phase all known =>
      cases phase'
      obtain ⟨inside, _⟩ := List.getElem?_eq_some_iff.mp known
      obtain ⟨most, _, _, ended⟩ := sound.sending _ _ phase
      have sized : s.workers.length = size := sound.sized
      refine ⟨most, sized ▸ inside, fun _ => all.trans sound.sized, ?_⟩
      intro i below
      obtain less | rfl := Nat.lt_succ_iff_lt_or_eq.mp below
      · exact ended i less
      · exact alive_eq known
  | lost | failed | returned => cases phase'

/-- A drop that has joined all threads finds them ended. -/
theorem Sound.joined_all (sound : Sound size s h) (phase : s.lifetime = .dropping s.size s.size)
    (i : Nat) : s.alive i = false := by
  obtain ⟨_, _, _, ended⟩ := sound.sending _ _ phase
  by_cases inside : i < s.size
  · exact ended i inside
  · rw [alive, List.getElem?_eq_none (Nat.not_lt.mp inside)]
    rfl

theorem Sound.dropped_step (sound : Sound size s h) (step : Step s label t seen)
    (phase' : t.lifetime = .dropped) : .returned ∈ h ++ seen ∧ ∀ i, t.alive i = false := by
  have same (before : s.lifetime = .dropped) : .returned ∈ h ++ seen ∧ ∀ i, t.alive i = false := by
    obtain ⟨mem, ended⟩ := sound.dropped before
    refine ⟨List.mem_append_left _ mem, fun i => Bool.eq_false_iff.mpr fun still => ?_⟩
    exact Bool.false_ne_true ((ended i).symm.trans (step.alive_of still))
  cases step with
  | put | unsent | linked | begun | ended | finished | burst | hungUp => exact same phase'
  | dropping | marked | lost | joined | failed => cases phase'
  | returned phase => exact ⟨by simp, sound.joined_all phase⟩

theorem Sound.step (sound : Sound size s h) (contained : Contained s h label)
    (step : Step s label t seen) : Sound size t (h ++ seen) := by
  obtain ⟨connects, calm⟩ := sound.calm_step step
  obtain ⟨new, split, put, marks⟩ := sound.channel step
  have whole : ∀ index, label ≠ .burst index := by
    rintro index rfl
    exact contained
  obtain ⟨ended, stopped, crashed⟩ := step.ends whole connects
  refine ⟨step.size_eq.trans sound.sized, ?_, sound.early_step step, ?_, ?_, ?_, ?_,
    fun mem => sound.whole (crashed mem), calm, ?_, ?_, ?_⟩
  · have all := congrArg tasks split
    rw [tasks_append, tasks_append, tasks_append, put] at all
    rw [submitted_append, sound.accounted]
    exact all.symm
  · rw [split, stops_append, sound.marks, marks]
  · rw [ended, sound.ended, received_append, stops_append]
  · intro i inside
    rw [stopsOn_append, sound.stopped i inside, stopped]
  · intro i
    rw [startedOn_append, finishedOn_append, sound.turns, List.append_assoc, step.turns,
      List.append_assoc]
  · exact sound.held_step step calm
  · exact sound.sending_step step
  · exact sound.dropped_step step

theorem sound_new (size : Nat) : Sound size (new size : ThreadPool τ) [] where
  sized := List.length_replicate
  accounted := rfl
  early := List.nil_prefix
  marks := rfl
  ended := by
    refine List.countP_eq_zero.mpr fun thread mem => ?_
    rw [(List.mem_replicate.mp mem).2]
    exact Bool.false_ne_true
  stopped := by
    intro i inside
    simp [alive, new, inside, Thread.alive, stopsOn]
  turns := by
    intro i
    have idle : (new size : ThreadPool τ).task? i = none := by
      rw [task?, new, List.getElem?_replicate]
      split <;> rfl
    rw [idle]
    rfl
  whole mem := nomatch (List.mem_replicate.mp mem).2
  calm := nofun
  held := ⟨fun _ => List.not_mem_nil, fun _ => rfl⟩
  sending := nofun
  dropped := nofun

theorem machine_sound (run : (machine size).Run Contained s h) : Sound size s h := by
  induction run with
  | start => exact sound_new size
  | step _ contained taken ih => exact ih.step contained (step_cases taken)

theorem task?_of_ended {i : Nat} (ended : s.alive i = false) : s.task? i = none := by
  unfold alive at ended
  unfold task?
  cases known : s.workers[i]? with
  | none => rfl
  | some thread =>
      rw [known] at ended
      cases thread <;> first | rfl | cases ended

/-- When a thread has received a marker, the threads have received all that was submitted before
the drop. -/
theorem Sound.early_started (sound : Sound size s h) (some_stop : 0 < stops (received h)) :
    ThreadPool.early h <+: started h := by
  obtain short | long := List.prefix_or_prefix_of_prefix sound.early (List.prefix_append _ s.queue)
  · exact tasks_map (ThreadPool.early h) ▸ short.filterMap Job.task?
  · -- Before the markers there are only tasks.
    have few : stops (received h) ≤ stops ((ThreadPool.early h).map .task) :=
      long.sublist.countP_le
    rw [stops_map] at few
    exact absurd some_stop (Nat.not_lt.mpr few)

/-- A submission fails after the drop has begun. When the drop returns, all that was submitted
before it is executed, and each thread has received one marker. -/
def Orderly (size : Nat) (before : List (Obs τ)) : Obs τ → Prop
  | .unsent _ => .dropping ∈ before
  | .returned => Executed (early before) before ∧ ∀ index < size, stopsOn index before = 1
  | _ => True

theorem Sound.orderly_unsent (sound : Sound size s h) (pos : 0 < size)
    (closed : s.connected = false) : .dropping ∈ h := by
  by_contra never
  have marks := sound.stops_le
  rw [sound.held.mpr never] at marks
  have open' := sound.connected (marks.trans_lt pos)
  rw [closed] at open'
  cases open'

theorem Sound.orderly_returned (sound : Sound size s h) (pos : 0 < size)
    (phase : s.lifetime = .dropping s.size s.size) :
    Executed (ThreadPool.early h) h ∧ ∀ index < size, stopsOn index h = 1 := by
  have ended := sound.joined_all phase
  have some_stop : 0 < stops (received h) := by
    rw [← sound.ended, endings_eq_size.mpr ended, sound.sized]
    exact pos
  refine ⟨⟨h, List.prefix_refl h, sound.early_started some_stop, ?_⟩, ?_⟩
  · intro index
    rw [sound.turns, task?_of_ended (ended index)]
    exact (List.append_nil _) ▸ List.prefix_refl _
  · intro index inside
    rw [sound.stopped index inside, ended]
    rfl

theorem machine_orderly (pos : 0 < size) (run : (machine size).Run Contained s h) :
    History.Always (Orderly size) h := by
  induction run with
  | start => exact History.always_nil
  | @step s t h label seen before contained taken ih =>
      have sound := machine_sound before
      rw [History.always_append]
      refine ⟨ih, ?_⟩
      cases step_cases taken with
      | unsent closed =>
          rw [History.alwaysFrom_cons]
          exact ⟨sound.orderly_unsent pos closed, History.alwaysFrom_nil _⟩
      | returned phase =>
          rw [History.alwaysFrom_cons]
          exact ⟨sound.orderly_returned pos phase, History.alwaysFrom_nil _⟩
      | put | begun | ended | finished | dropping =>
          rw [History.alwaysFrom_cons]
          exact ⟨trivial, History.alwaysFrom_nil _⟩
      | linked | hungUp | marked | lost | joined | failed => exact History.alwaysFrom_nil _
      | burst => cases contained

end Ledger

end ThreadPool
end Uppercut
