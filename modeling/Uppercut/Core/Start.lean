import Uppercut.Config
import Uppercut.Core.Action
import Uppercut.Pool
import Uppercut.Remote.Server

/-!
# Starting a system

`System::run` compares the size of the pool with what the configuration requires, submits the
loops of the system to the pool, and then listens for remote systems, if it has to. What the
operating system answers is an argument. A panic has no result.
-/

namespace Uppercut

open ThreadPool

/-! ## Errors -/

inductive Error where
  | threadPoolTooSmall (required available : Nat)
  | invalidServerAddress (addr : String)
  | serverBindFailed (port : UInt16)
  deriving DecidableEq

/-- `impl From<Error> for Box<dyn std::error::Error>`. -/
def Error.text : Error → String
  | .threadPoolTooSmall required available =>
      "Not enough threads in the pool: available=" ++ toString available ++ " but required=" ++
        toString required
  | .invalidServerAddress addr => "Invalid server address: " ++ addr
  | .serverBindFailed port => "Failed to bind server on port " ++ toString port.toNat

/-! ## The loops of a system -/

/-- What a system submits to the pool: its loops, and closures that are to run in between. -/
inductive Task where
  | workerLoop (system index : Nat)
  | eventLoop (system : Nat)
  | offload (system : Nat)
  deriving DecidableEq

def Task.system : Task → Nat
  | .workerLoop system _ | .eventLoop system | .offload system => system

def workerLoops (system : Nat) (config : SchedulerConfig) : List Task :=
  (List.range config.actorWorkerThreads).map (.workerLoop system)

/-- The loops in the order in which they are submitted. -/
def loopsOf (system : Nat) (config : SchedulerConfig) : List Task :=
  workerLoops system config ++ [.eventLoop system]

/-- The event loop takes a link to the pool with it. -/
def startActorRuntime (system : Nat) (config : SchedulerConfig) (pool : ThreadPool Task) :
    Option (ThreadPool Task) := do
  let pool ← pool.submitAll (workerLoops system config)
  pool.link.submit (.eventLoop system)

/-- The loops are at the end of the channel, in their order. -/
theorem startActorRuntime_eq (system : Nat) (config : SchedulerConfig) (pool : ThreadPool Task) :
    startActorRuntime system config pool =
      if pool.connected then
        some { pool with
          queue := pool.queue ++ (loopsOf system config).map .task
          links := pool.links + 1 }
      else none := by
  unfold startActorRuntime
  cases connects : pool.connected with
  | true =>
      let filled : ThreadPool Task :=
        { pool with queue := pool.queue ++ (workerLoops system config).map .task }
      have last := @submit_eq _ filled.link connects (.eventLoop system)
      rw [submitAll_eq connects, loopsOf, List.map_append, ← List.append_assoc]
      exact last
  | false =>
      have refuses (f : Task) (pool : ThreadPool Task) (gone : pool.connected = false) :
          pool.submit f = none := if_neg (by simp [gone])
      cases loops : workerLoops system config with
      | nil => exact refuses _ _ connects
      | cons first rest =>
          rw [submitAll, List.foldlM_cons, refuses first pool connects]
          rfl

/-! ## The start -/

/-- A socket address of which the port is known. -/
class ListeningAddr (α : Type) extends SocketAddr α where
  port : α → UInt16

instance : ListeningAddr Loopback where
  port := Loopback.port

/-- Whether the polls can be created, and the listener bound and registered. -/
structure StartAnswers where
  serverPolls : Bool
  binds : Bool
  registers : Bool
  clientPolls : Bool
  deriving DecidableEq

variable (α : Type) [ListeningAddr α]

/-- The server and its port. -/
def Server.listen (answers : StartAnswers) (addr : String) :
    Option (Except Error (Server × UInt16)) :=
  if !answers.serverPolls then none
  else
    match SocketAddr.parse (α := α) addr with
    | none => some (.error (.invalidServerAddress addr))
    | some parsed =>
        let port := ListeningAddr.port parsed
        if !answers.binds then some (.error (.serverBindFailed port))
        else if !answers.registers then none
        else some (.ok (Server.new, port))

/-- The calls on the new handle that bring up the remote actors. -/
def remoteCalls : List Call :=
  [.spawn serverTag, .send serverTag (.of .serverLoop), .spawn clientTag,
    .send clientTag (.of .clientLoop)]

structure System where
  name : String
  host : String
  config : Config
  deriving DecidableEq

namespace System

/-- `Runtime::start`: the result, with the calls on the handle, and the pool after it. -/
def start (id : Nat) (answers : StartAnswers) (system : System) (pool : ThreadPool Task) :
    Option (Except Error (List Call)) × ThreadPool Task :=
  match startActorRuntime id system.config.scheduler pool with
  | none => (none, pool)
  | some pool =>
      if system.config.remote.enabled then
        match Server.listen α answers system.config.remote.listening with
        | none => (none, pool)
        | some (.error error) => (some (.error error), pool)
        | some (.ok _) =>
            if answers.clientPolls then (some (.ok remoteCalls), pool) else (none, pool)
      else (some (.ok []), pool)

def run (id : Nat) (answers : StartAnswers) (system : System) (pool : ThreadPool Task) :
    Option (Except Error (List Call)) × ThreadPool Task :=
  let required := system.config.scheduler.totalThreadsRequired
  if pool.size < required then (some (.error (.threadPoolTooSmall required pool.size)), pool)
  else system.start α id answers pool

/-- The start fails although the pool is large enough: the address of the listener is refused. -/
def FailsLate (answers : StartAnswers) (system : System) (pool : ThreadPool Task) : Prop :=
  system.config.scheduler.totalThreadsRequired ≤ pool.size ∧ pool.connected = true ∧
    system.config.remote.enabled = true ∧ answers.serverPolls = true ∧
    (SocketAddr.parse (α := α) system.config.remote.listening = none ∨ answers.binds = false)

variable {α} {id : Nat} {answers : StartAnswers} {system : System} {pool : ThreadPool Task}

/-- The pool with the loops of the system behind what it held. -/
def withLoops (id : Nat) (system : System) (pool : ThreadPool Task) : ThreadPool Task :=
  { pool with
    queue := pool.queue ++ (loopsOf id system.config.scheduler).map .task
    links := pool.links + 1 }

theorem withLoops_ne : system.withLoops id pool ≠ pool := by
  intro same
  have sizes := congrArg (fun pool => pool.queue.length) same
  simp [withLoops, loopsOf] at sizes

theorem listen_error : (∃ error, Server.listen α answers system.config.remote.listening =
      some (.error error)) ↔ answers.serverPolls = true ∧
    (SocketAddr.parse (α := α) system.config.remote.listening = none ∨ answers.binds = false) := by
  unfold Server.listen
  cases answers.serverPolls <;>
    cases SocketAddr.parse (α := α) system.config.remote.listening <;>
    cases answers.binds <;> cases answers.registers <;> simp

/-- A start that gets past the size of the pool leaves the loops there, whatever its result. -/
theorem start_pool (connects : pool.connected = true) :
    (system.start α id answers pool).2 = system.withLoops id pool ∧
      ((∃ error, (system.start α id answers pool).1 = some (.error error)) ↔
        system.config.remote.enabled = true ∧ ∃ error,
          Server.listen α answers system.config.remote.listening = some (.error error)) := by
  unfold start
  rw [startActorRuntime_eq, if_pos connects]
  dsimp only
  cases system.config.remote.enabled with
  | false => exact ⟨rfl, by simp⟩
  | true =>
      rw [if_pos rfl]
      cases Server.listen α answers system.config.remote.listening with
      | none => exact ⟨rfl, by simp⟩
      | some result =>
          cases result with
          | error error => exact ⟨rfl, by simp⟩
          | ok bound => cases answers.clientPolls <;> exact ⟨rfl, by simp⟩

/-- Without remote systems only the size of the pool decides. -/
theorem run_local (off : system.config.remote.enabled = false)
    (connects : system.config.scheduler.totalThreadsRequired ≤ pool.size →
      pool.connected = true) :
    system.run α id answers pool =
      if system.config.scheduler.totalThreadsRequired ≤ pool.size then
        (some (.ok []), system.withLoops id pool)
      else
        (some (.error (.threadPoolTooSmall system.config.scheduler.totalThreadsRequired pool.size)),
          pool) := by
  unfold run
  by_cases large : system.config.scheduler.totalThreadsRequired ≤ pool.size
  · rw [if_pos large]
    refine (if_neg (Nat.not_lt.mpr large)).trans ?_
    rw [start, startActorRuntime_eq, if_pos (connects large)]
    simp only [off, Bool.false_eq_true, if_false]
    rfl
  · rw [if_neg large]
    exact if_pos (Nat.not_le.mp large)

/-- **Failed starts and the pool.** A start that fails leaves the pool as it was unless the
address of the listener is refused. Then the pool has all loops of the system. -/
theorem run_leaves_pool_iff :
    ((∀ error, (system.run α id answers pool).1 = some (.error error) →
        (system.run α id answers pool).2 = pool) ↔ ¬ system.FailsLate α answers pool) ∧
      (system.FailsLate α answers pool →
        (∃ error, (system.run α id answers pool).1 = some (.error error)) ∧
        (system.run α id answers pool).2 = { pool with
          queue := pool.queue ++ (loopsOf id system.config.scheduler).map .task
          links := pool.links + 1 }) := by
  by_cases small : pool.size < system.config.scheduler.totalThreadsRequired
  · have early : ¬ system.FailsLate α answers pool := fun fails => fails.1.not_gt small
    refine ⟨?_, fun fails => absurd fails early⟩
    simp [run, small, early]
  · have same : system.run α id answers pool = system.start α id answers pool := if_neg small
    rw [same]
    cases connects : pool.connected with
    | false =>
        have early : ¬ system.FailsLate α answers pool :=
          fun fails => Bool.false_ne_true (connects.symm.trans fails.2.1)
        refine ⟨?_, fun fails => absurd fails early⟩
        simp [start, startActorRuntime_eq, connects, early]
    | true =>
        obtain ⟨left, fails⟩ := @start_pool α _ id answers system pool connects
        have late : system.FailsLate α answers pool ↔
            ∃ error, (system.start α id answers pool).1 = some (.error error) := by
          rw [fails, listen_error, FailsLate]
          simp [Nat.not_lt.mp small, connects]
        rw [late, left]
        refine ⟨?_, fun failed => ⟨failed, rfl⟩⟩
        constructor
        · rintro unchanged ⟨error, failed⟩
          exact withLoops_ne (unchanged error failed)
        · intro fine error failed
          exact absurd ⟨error, failed⟩ fine

/-- The address of the listener is not one. -/
def nowhere : System := ⟨"app", "host", .default, .listeningAt "nowhere" .default .default⟩

/-- Five loops of a system that was not started wait for the threads. -/
theorem failed_start_leaks :
    (nowhere.run Loopback 0 ⟨true, true, true, true⟩ (ThreadPool.new 6)).1 =
        some (.error (.invalidServerAddress "nowhere")) ∧
      (nowhere.run Loopback 0 ⟨true, true, true, true⟩ (ThreadPool.new 6)).2.queue =
        (loopsOf 0 .default).map .task := by
  decide

end System
end Uppercut
