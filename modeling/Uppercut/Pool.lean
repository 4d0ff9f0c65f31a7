import Uppercut.Machine.Run

/-!
# The thread pool

Jobs and stop markers share one unbounded channel, from which all threads receive. A thread runs
one job after the other, whether they return or panic, until it receives a marker. What a job
panicked with is dropped outside of `catch_unwind`; if that panics, too, it ends the thread. When
the pool is dropped, it sends a marker for each thread and joins the threads.
-/

namespace Uppercut

namespace ThreadPool

inductive Job (τ : Type) where
  | task (f : τ)
  | stop
  deriving DecidableEq

/-- Where a thread stands in its loop. -/
inductive Thread (τ : Type) where
  | receiving
  | running (f : τ)
  | exited
  /-- A panic has ended the thread. -/
  | crashed
  deriving DecidableEq

/-- How far `drop` has come: the markers sent and the threads joined. -/
inductive Lifetime where
  | held
  | dropping (sent joined : Nat)
  | dropped
  | panicked
  deriving DecidableEq

end ThreadPool

structure ThreadPool (τ : Type) where
  queue : List (ThreadPool.Job τ)
  workers : List (ThreadPool.Thread τ)
  lifetime : ThreadPool.Lifetime
  /-- The closures made by `link`, each with a sender of its own. -/
  links : Nat
  deriving DecidableEq

namespace ThreadPool

variable {τ : Type}

def new (size : Nat) : ThreadPool τ where
  queue := []
  workers := List.replicate size .receiving
  lifetime := .held
  links := 0

def Thread.alive : Thread τ → Bool
  | .exited | .crashed => false
  | .receiving | .running _ => true

/-- A thread that has not ended holds a receiver. -/
def connected (pool : ThreadPool τ) : Bool := pool.workers.any Thread.alive

/-- A send that fails is a panic. -/
def submit (f : τ) (pool : ThreadPool τ) : Option (ThreadPool τ) :=
  if pool.connected then some { pool with queue := pool.queue ++ [.task f] } else none

def size (pool : ThreadPool τ) : Nat := pool.workers.length

def link (pool : ThreadPool τ) : ThreadPool τ := { pool with links := pool.links + 1 }

/-- Submit tasks one after the other. -/
def submitAll (tasks : List τ) (pool : ThreadPool τ) : Option (ThreadPool τ) :=
  tasks.foldlM (fun pool f => pool.submit f) pool

theorem submit_eq {pool : ThreadPool τ} (connects : pool.connected = true) (f : τ) :
    pool.submit f = some { pool with queue := pool.queue ++ [.task f] } := if_pos connects

/-- The tasks are behind each other at the end of the channel. -/
theorem submitAll_eq {pool : ThreadPool τ} (connects : pool.connected = true) (tasks : List τ) :
    pool.submitAll tasks = some { pool with queue := pool.queue ++ tasks.map .task } := by
  unfold submitAll
  induction tasks generalizing pool with
  | nil =>
      show some pool = some { pool with queue := pool.queue ++ [] }
      rw [List.append_nil]
  | cons f tasks ih =>
      have rest := @ih { pool with queue := pool.queue ++ [.task f] } connects
      rw [List.append_assoc] at rest
      rw [List.foldlM_cons, submit_eq connects]
      exact rest

/-- Thread `index` goes on as `thread`. -/
def withThread (pool : ThreadPool τ) (index : Nat) (thread : Thread τ) : ThreadPool τ :=
  { pool with workers := pool.workers.set index thread }

inductive Label (τ : Type) where
  /-- A caller submits a task, by the pool or by a link. -/
  | submit (f : τ)
  | post (f : τ)
  | link
  | unlink
  /-- A thread receives a job, comes back from a task, or finds the channel disconnected. -/
  | take (index : Nat)
  | finish (index : Nat) (panics : Bool)
  | hangUp (index : Nat)
  /-- A task panics, and so does the drop of what it panicked with. -/
  | burst (index : Nat)
  /-- The pool is dropped, sends a marker, joins the next thread, or is gone. -/
  | drop
  | sendStop
  | join
  | done
  deriving DecidableEq

inductive Obs (τ : Type) where
  | submitted (f : τ)
  | unsent (f : τ)
  | started (index : Nat) (f : τ)
  | finished (index : Nat) (f : τ) (panicked : Bool)
  | stopped (index : Nat)
  | crashed (index : Nat)
  | dropping
  | returned
  deriving DecidableEq

/-- A submission and what it shows. -/
def offer (f : τ) (pool : ThreadPool τ) : ThreadPool τ × List (Obs τ) :=
  match pool.submit f with
  | some pool => (pool, [.submitted f])
  | none => (pool, [.unsent f])

def step (pool : ThreadPool τ) : Label τ → Option (ThreadPool τ × List (Obs τ))
  | .submit f => if pool.lifetime = .held then some (pool.offer f) else none
  | .post f => if 0 < pool.links then some (pool.offer f) else none
  | .link => if pool.lifetime = .held then some (pool.link, []) else none
  | .unlink => if 0 < pool.links then some ({ pool with links := pool.links - 1 }, []) else none
  | .take index =>
      match pool.workers[index]?, pool.queue with
      | some .receiving, .task f :: queue =>
          some ({ pool with queue := queue }.withThread index (.running f), [.started index f])
      | some .receiving, .stop :: queue =>
          some ({ pool with queue := queue }.withThread index .exited, [.stopped index])
      | _, _ => none
  | .finish index panics =>
      match pool.workers[index]? with
      | some (.running f) =>
          some (pool.withThread index .receiving, [.finished index f panics])
      | _ => none
  | .burst index =>
      match pool.workers[index]? with
      | some (.running f) =>
          -- `let _` drops the result of `catch_unwind`.
          some (pool.withThread index .crashed, [.finished index f true, .crashed index])
      | _ => none
  | .hangUp index =>
      match pool.workers[index]?, pool.queue, pool.links, pool.lifetime with
      | some .receiving, [], 0, .dropped | some .receiving, [], 0, .panicked =>
          some (pool.withThread index .exited, [])
      | _, _, _, _ => none
  | .drop =>
      if pool.lifetime = .held then some ({ pool with lifetime := .dropping 0 0 }, [.dropping])
      else none
  | .sendStop =>
      match pool.lifetime with
      | .dropping sent joined =>
          if sent < pool.size then
            if pool.connected then
              some ({ pool with
                queue := pool.queue ++ [.stop]
                lifetime := .dropping (sent + 1) joined }, [])
            else some ({ pool with lifetime := .panicked }, [])
          else none
      | _ => none
  | .join =>
      match pool.lifetime with
      | .dropping sent joined =>
          match pool.workers[joined]? with
          | some .exited =>
              if sent = pool.size then
                some ({ pool with lifetime := .dropping sent (joined + 1) }, [])
              else none
          | some .crashed =>
              if sent = pool.size then some ({ pool with lifetime := .panicked }, []) else none
          | _ => none
      | _ => none
  | .done =>
      if pool.lifetime = .dropping pool.size pool.size then
        some ({ pool with lifetime := .dropped }, [.returned])
      else none

/-- One step, with all that it changes. -/
inductive Step (pool : ThreadPool τ) : Label τ → ThreadPool τ → List (Obs τ) → Prop where
  | put {f label} (open' : pool.connected = true)
      (caller : label = .submit f ∧ pool.lifetime = .held ∨ label = .post f) :
      Step pool label { pool with queue := pool.queue ++ [.task f] } [.submitted f]
  | unsent {f label} (closed : pool.connected = false)
      (caller : label = .submit f ∧ pool.lifetime = .held ∨ label = .post f) :
      Step pool label pool [.unsent f]
  | linked {label links} (caller : label = .link ∨ label = .unlink) :
      Step pool label { pool with links := links } []
  | begun {index f queue} (known : pool.workers[index]? = some .receiving)
      (head : pool.queue = .task f :: queue) :
      Step pool (.take index) ({ pool with queue := queue }.withThread index (.running f))
        [.started index f]
  | ended {index queue} (known : pool.workers[index]? = some .receiving)
      (head : pool.queue = .stop :: queue) :
      Step pool (.take index) ({ pool with queue := queue }.withThread index .exited)
        [.stopped index]
  | finished {index f panics} (known : pool.workers[index]? = some (.running f)) :
      Step pool (.finish index panics) (pool.withThread index .receiving)
        [.finished index f panics]
  | burst {index f} (known : pool.workers[index]? = some (.running f)) :
      Step pool (.burst index) (pool.withThread index .crashed)
        [.finished index f true, .crashed index]
  | hungUp {index} (known : pool.workers[index]? = some .receiving)
      (gone : pool.lifetime = .dropped ∨ pool.lifetime = .panicked) :
      Step pool (.hangUp index) (pool.withThread index .exited) []
  | dropping (held : pool.lifetime = .held) :
      Step pool .drop { pool with lifetime := .dropping 0 0 } [.dropping]
  | marked {sent joined} (phase : pool.lifetime = .dropping sent joined) (few : sent < pool.size)
      (open' : pool.connected = true) :
      Step pool .sendStop
        { pool with queue := pool.queue ++ [.stop], lifetime := .dropping (sent + 1) joined } []
  | lost {sent joined} (phase : pool.lifetime = .dropping sent joined) (few : sent < pool.size)
      (closed : pool.connected = false) : Step pool .sendStop { pool with lifetime := .panicked } []
  | joined {sent joined} (phase : pool.lifetime = .dropping sent joined) (all : sent = pool.size)
      (known : pool.workers[joined]? = some .exited) :
      Step pool .join { pool with lifetime := .dropping sent (joined + 1) } []
  | failed {sent joined} (phase : pool.lifetime = .dropping sent joined)
      (known : pool.workers[joined]? = some .crashed) :
      Step pool .join { pool with lifetime := .panicked } []
  | returned (phase : pool.lifetime = .dropping pool.size pool.size) :
      Step pool .done { pool with lifetime := .dropped } [.returned]

section Cases

variable {pool next : ThreadPool τ} {label : Label τ} {seen : List (Obs τ)}

/-- A submission succeeds as long as a thread holds a receiver. -/
theorem Step.of_offer {f : τ}
    (caller : label = .submit f ∧ pool.lifetime = .held ∨ label = .post f) :
    Step pool label (pool.offer f).1 (pool.offer f).2 := by
  unfold offer submit
  by_cases open' : pool.connected = true
  · rw [if_pos open']
    exact .put open' caller
  · rw [if_neg open']
    exact .unsent (Bool.eq_false_iff.mpr open') caller

theorem step_cases (taken : pool.step label = some (next, seen)) : Step pool label next seen := by
  cases label with
  | submit f =>
      simp only [step] at taken
      split at taken
      case isFalse => cases taken
      case isTrue held =>
        have offered : pool.offer f = (next, seen) := Option.some.inj taken
        have put := @Step.of_offer τ pool (.submit f) f (.inl ⟨rfl, held⟩)
        rwa [offered] at put
  | post f =>
      simp only [step] at taken
      split at taken
      case isFalse => cases taken
      case isTrue =>
        have offered : pool.offer f = (next, seen) := Option.some.inj taken
        have put := @Step.of_offer τ pool (.post f) f (.inr rfl)
        rwa [offered] at put
  | link =>
      simp only [step] at taken
      split at taken
      case isFalse => cases taken
      case isTrue =>
        cases taken
        exact .linked (.inl rfl)
  | unlink =>
      simp only [step] at taken
      split at taken
      case isFalse => cases taken
      case isTrue =>
        cases taken
        exact .linked (.inr rfl)
  | take index =>
      simp only [step] at taken
      split at taken
      case h_1 f queue known head =>
        cases taken
        exact .begun known head
      case h_2 queue known head =>
        cases taken
        exact .ended known head
      case h_3 => cases taken
  | finish index panics =>
      simp only [step] at taken
      split at taken
      case h_1 f known =>
        cases taken
        exact .finished known
      case h_2 => cases taken
  | burst index =>
      simp only [step] at taken
      split at taken
      case h_1 f known =>
        cases taken
        exact .burst known
      case h_2 => cases taken
  | hangUp index =>
      simp only [step] at taken
      split at taken
      case h_1 known _ _ gone =>
        cases taken
        exact .hungUp known (.inl gone)
      case h_2 known _ _ gone =>
        cases taken
        exact .hungUp known (.inr gone)
      case h_3 => cases taken
  | drop =>
      simp only [step] at taken
      split at taken
      case isFalse => cases taken
      case isTrue held =>
        cases taken
        exact .dropping held
  | sendStop =>
      simp only [step] at taken
      split at taken
      case h_2 => cases taken
      case h_1 sent joined phase =>
        split at taken
        case isFalse => cases taken
        case isTrue few =>
          split at taken
          case isTrue open' =>
            cases taken
            exact .marked phase few open'
          case isFalse closed =>
            cases taken
            exact .lost phase few (Bool.eq_false_iff.mpr closed)
  | join =>
      simp only [step] at taken
      split at taken
      case h_2 => cases taken
      case h_1 sent joined phase =>
        split at taken
        case h_1 known =>
          split at taken
          case isFalse => cases taken
          case isTrue all =>
            cases taken
            exact .joined phase all known
        case h_2 known =>
          split at taken
          case isFalse => cases taken
          case isTrue all =>
            cases taken
            exact .failed phase known
        case h_3 => cases taken
  | done =>
      simp only [step] at taken
      split at taken
      case isFalse => cases taken
      case isTrue phase =>
        cases taken
        exact .returned phase

/-- A thread that is receiving takes the oldest job. -/
theorem take_cases {index : Nat} (taken : pool.step (.take index) = some (next, seen)) :
    pool.workers[index]? = some .receiving ∧ ∃ job queue, pool.queue = job :: queue ∧
      ((∃ f, job = .task f ∧ seen = [.started index f] ∧
          next = { pool with queue := queue }.withThread index (.running f)) ∨
        job = .stop ∧ seen = [.stopped index] ∧
          next = { pool with queue := queue }.withThread index .exited) := by
  cases step_cases taken with
  | put _ caller | unsent _ caller => simp at caller
  | linked caller => simp at caller
  | @begun _ f queue known head => exact ⟨known, _, queue, head, .inl ⟨f, rfl, rfl, rfl⟩⟩
  | @ended _ queue known head => exact ⟨known, _, queue, head, .inr ⟨rfl, rfl, rfl⟩⟩

/-- A thread comes back from its task, whether it returned or panicked. -/
theorem finish_cases {index : Nat} {panics : Bool}
    (taken : pool.step (.finish index panics) = some (next, seen)) :
    ∃ f, pool.workers[index]? = some (.running f) ∧ seen = [.finished index f panics] ∧
      next = pool.withThread index .receiving := by
  cases step_cases taken with
  | put _ caller | unsent _ caller => simp at caller
  | linked caller => simp at caller
  | @finished _ f _ known => exact ⟨f, known, rfl, rfl⟩

end Cases

/-- The pool from its creation on. -/
def machine (size : Nat) : Machine (ThreadPool τ) (Label τ) (Obs τ) where
  start := new size
  step := step

end ThreadPool
end Uppercut
