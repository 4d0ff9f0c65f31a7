import Uppercut.Core.Runtime
import Uppercut.Core.Start

/-!
# Systems that share a pool

Each system is compared with the size of the pool on its own, while the loops of the systems
before it keep their threads. Loops are taken in the order in which they were submitted, so the
last ones wait when the threads are used up, and the event loop of a system is its last one.
-/

namespace Uppercut

open ThreadPool

/-- A pool and the number of calls of `System::run` with it. -/
structure Host where
  pool : ThreadPool Task
  runs : Nat
  deriving DecidableEq

inductive HostLabel where
  | run (answers : StartAnswers) (system : System)
  /-- A closure of a started system is handed to the pool, and a thread comes back from one. -/
  | offload (system : Nat)
  | finish (index : Nat) (panics : Bool)
  /-- A thread receives a job. -/
  | take (index : Nat)
  deriving DecidableEq

inductive HostObs where
  | ran (id : Nat) (system : System) (result : Option (Except Error (List Call)))

def ThreadPool.Job.loop? : ThreadPool.Job Task → Option Task
  | .task (.offload _) | .stop => none
  | .task loop => some loop

def ThreadPool.Thread.loop? : ThreadPool.Thread Task → Option Task
  | .running (.offload _) | .receiving | .exited | .crashed => none
  | .running loop => some loop

def ThreadPool.Thread.offloads : ThreadPool.Thread Task → Bool
  | .running (.offload _) => true
  | _ => false

namespace Host

/-- The loops that wait for a thread. -/
def queued (s : Host) : List Task := s.pool.queue.filterMap ThreadPool.Job.loop?

/-- The loops that have a thread. -/
def running (s : Host) : List Task := s.pool.workers.filterMap ThreadPool.Thread.loop?

/-- The loops of a system do not end, as no system is shut down. No closure takes its thread
down. -/
def step (α : Type) [ListeningAddr α] (s : Host) : HostLabel → Option (Host × List HostObs)
  | .run answers system =>
      let (result, pool) := system.run α s.runs answers s.pool
      some (⟨pool, s.runs + 1⟩, [.ran s.runs system result])
  | .offload system =>
      (s.pool.step (.post (.offload system))).map fun r => ({ s with pool := r.1 }, [])
  | .take index => (s.pool.step (.take index)).map fun r => ({ s with pool := r.1 }, [])
  | .finish index panics =>
      if (s.pool.workers[index]?).any (·.offloads) then
        (s.pool.step (.finish index panics)).map fun r => ({ s with pool := r.1 }, [])
      else none

def machine (α : Type) [ListeningAddr α] (size : Nat) : Machine Host HostLabel HostObs where
  start := ⟨.new size, 0⟩
  step := step α

/-- No system is remote. -/
def LocalOnly (_ : Host) (_ : List HostObs) : HostLabel → Prop
  | .run _ system => system.config.remote.enabled = false
  | _ => True

instance (s : Host) (h : List HostObs) (label : HostLabel) : Decidable (LocalOnly s h label) := by
  unfold LocalOnly
  split <;> infer_instance

def HostObs.accepted? : HostObs → Option (Nat × SchedulerConfig)
  | .ran id system (some (.ok _)) => some (id, system.config.scheduler)
  | _ => none

/-- The systems that were started, with their configurations. -/
def accepted (h : List HostObs) : List (Nat × SchedulerConfig) :=
  h.filterMap HostObs.accepted?

/-- The number of loops of these systems. -/
def demand (h : List HostObs) : Nat :=
  ((accepted h).map fun x => x.2.actorWorkerThreads + 1).sum

/-- No thread can receive a job, and none runs a closure that is going to end. -/
def Resting (s : Host) : Prop :=
  (∀ thread ∈ s.pool.workers, thread = .receiving → s.pool.queue = []) ∧
    ∀ thread ∈ s.pool.workers, thread.offloads = false

instance (s : Host) : Decidable s.Resting := inferInstanceAs (Decidable (_ ∧ _))

/-! ## Where the loops are -/

section Lists

variable {τ β : Type} {l : List τ} {i : Nat} {a b : τ}

/-- Replacing an item that is not seen adds what is seen of the new one. -/
theorem filterMap_set_perm {f : τ → Option β} (known : l[i]? = some a) (unseen : f a = none) :
    ((l.set i b).filterMap f).Perm ((f b).toList ++ l.filterMap f) := by
  obtain ⟨inside, rfl⟩ := List.getElem?_eq_some_iff.mp known
  have split : l.filterMap f = (l.take i).filterMap f ++ (l.drop (i + 1)).filterMap f := by
    have parts : l = l.take i ++ l[i] :: l.drop (i + 1) := by
      rw [← List.drop_eq_getElem_cons inside, List.take_append_drop]
    have all := congrArg (List.filterMap f) parts
    rwa [List.filterMap_append, List.filterMap_cons_none unseen] at all
  rw [List.set_eq_take_append_cons_drop, if_pos inside, List.filterMap_append, split,
    ← List.append_assoc]
  cases seen : f b with
  | none => rw [List.filterMap_cons_none seen]; exact .refl _
  | some c =>
      rw [List.filterMap_cons_some seen]
      exact List.perm_middle

end Lists

theorem mem_loopsOf {id : Nat} {config : SchedulerConfig} {loop : Task} :
    loop ∈ loopsOf id config ↔
      (∃ index < config.actorWorkerThreads, loop = .workerLoop id index) ∨
        loop = .eventLoop id := by
  simp [loopsOf, workerLoops, eq_comm]

theorem system_of_mem {id : Nat} {config : SchedulerConfig} {loop : Task}
    (mem : loop ∈ loopsOf id config) : loop.system = id := by
  obtain ⟨_, _, rfl⟩ | rfl := mem_loopsOf.mp mem <;> rfl

theorem length_loopsOf (id : Nat) (config : SchedulerConfig) :
    (loopsOf id config).length = config.actorWorkerThreads + 1 := by
  simp [loopsOf, workerLoops]

theorem nodup_loopsOf (id : Nat) (config : SchedulerConfig) : (loopsOf id config).Nodup := by
  rw [loopsOf, List.nodup_append]
  refine ⟨?_, List.nodup_singleton _, ?_⟩
  · apply List.Nodup.map _ List.nodup_range
    intro i j same
    cases same
    rfl
  · intro a mem b last
    obtain ⟨index, _, rfl⟩ := List.mem_map.mp mem
    cases List.mem_singleton.mp last
    exact Task.noConfusion

/-- The loops of the started systems, in the order in which they were submitted. -/
def submitted (h : List HostObs) : List Task := (accepted h).flatMap fun x => loopsOf x.1 x.2

theorem length_submitted (h : List HostObs) : (submitted h).length = demand h := by
  rw [submitted, List.length_flatMap, demand]
  congr 1
  apply List.map_congr_left
  intro x _
  exact length_loopsOf x.1 x.2

/-- What is known of the pool: each loop waits or has a thread, and those that wait are the
ones that were submitted last. -/
structure Hosted (size : Nat) (s : Host) (h : List HostObs) : Prop where
  alive : ∀ thread ∈ s.pool.workers, thread.alive = true
  open' : .stop ∉ s.pool.queue
  sized : s.pool.size = size
  order : ∃ taken, submitted h = taken ++ s.queued ∧ taken.Perm s.running
  fresh : ∀ x ∈ accepted h, x.1 < s.runs
  distinct : ((accepted h).map Prod.fst).Nodup

variable {size : Nat} {s t : Host} {h : List HostObs}

theorem Hosted.connected (hosted : Hosted size s h) (pos : 0 < size) :
    s.pool.connected = true := by
  have sized : s.pool.workers.length = size := hosted.sized
  obtain ⟨thread, mem⟩ := List.exists_mem_of_length_pos (sized.symm ▸ pos)
  exact List.any_eq_true.mpr ⟨thread, mem, hosted.alive thread mem⟩

theorem queued_loopsOf (id : Nat) (config : SchedulerConfig) :
    ((loopsOf id config).map ThreadPool.Job.task).filterMap ThreadPool.Job.loop? =
      loopsOf id config := by
  rw [List.filterMap_map]
  refine (List.filterMap_congr fun loop mem => ?_).trans List.filterMap_some
  obtain ⟨index, _, rfl⟩ | rfl := mem_loopsOf.mp mem <;> rfl

@[simp] theorem accepted_append (h k : List HostObs) :
    accepted (h ++ k) = accepted h ++ accepted k := List.filterMap_append

@[simp] theorem submitted_append (h k : List HostObs) :
    submitted (h ++ k) = submitted h ++ submitted k := by
  rw [submitted, accepted_append, List.flatMap_append, submitted, submitted]

/-- An accepted system puts its loops behind those that wait. -/
theorem Hosted.accept (hosted : Hosted size s h) (system : System) (calls : List Call) :
    Hosted size ⟨system.withLoops s.runs s.pool, s.runs + 1⟩
      (h ++ [.ran s.runs system (some (.ok calls))]) := by
  obtain ⟨taken, order, held⟩ := hosted.order
  have added : submitted [.ran s.runs system (some (.ok calls))] =
      loopsOf s.runs system.config.scheduler := List.append_nil _
  refine ⟨hosted.alive, ?_, hosted.sized, ⟨taken, ?_, held⟩, ?_, ?_⟩
  · intro mem
    obtain old | new := List.mem_append.mp mem
    · exact hosted.open' old
    · obtain ⟨_, _, same⟩ := List.mem_map.mp new
      cases same
  · rw [submitted_append, order, added, List.append_assoc]
    congr 1
    show _ = (s.pool.queue ++ _).filterMap _
    rw [List.filterMap_append, queued_loopsOf, queued]
  · intro x mem
    rw [accepted_append] at mem
    obtain old | new := List.mem_append.mp mem
    · exact Nat.lt_succ_of_lt (hosted.fresh x old)
    · obtain rfl := List.mem_singleton.mp new
      exact Nat.lt_succ_self _
  · rw [accepted_append, List.map_append, List.nodup_append]
    refine ⟨hosted.distinct, List.nodup_singleton _, ?_⟩
    intro id mem id' last same
    obtain ⟨x, known, rfl⟩ := List.mem_map.mp mem
    obtain rfl := List.mem_singleton.mp last
    exact (hosted.fresh x known).ne same

/-- A refused system leaves the pool as it was. -/
theorem Hosted.refuse (hosted : Hosted size s h) (system : System) (error : Error) :
    Hosted size { s with runs := s.runs + 1 }
      (h ++ [.ran s.runs system (some (.error error))]) := by
  have none : accepted [.ran s.runs system (some (.error error))] = [] := rfl
  have same : accepted (h ++ [.ran s.runs system (some (.error error))]) = accepted h := by
    rw [accepted_append, none, List.append_nil]
  refine ⟨hosted.alive, hosted.open', hosted.sized, ?_, ?_, ?_⟩
  · rw [submitted, same]
    exact hosted.order
  · rw [same]
    intro x mem
    exact Nat.lt_succ_of_lt (hosted.fresh x mem)
  · rw [same]
    exact hosted.distinct

/-- Whatever the threads do, it keeps what was submitted. -/
theorem Hosted.thread (hosted : Hosted size s h) {index : Nat} {thread : ThreadPool.Thread Task}
    (job : Option (ThreadPool.Job Task)) {queue : List (ThreadPool.Job Task)}
    {before : ThreadPool.Thread Task} (known : s.pool.workers[index]? = some before)
    (unseen : before.loop? = none) (head : s.pool.queue = job.toList ++ queue)
    (same : thread.loop? = job.bind ThreadPool.Job.loop?) (alive : thread.alive = true) :
    Hosted size { s with pool := { s.pool with queue := queue }.withThread index thread } h := by
  obtain ⟨taken, order, held⟩ := hosted.order
  refine ⟨?_, ?_, List.length_set.trans hosted.sized, ?_, hosted.fresh, hosted.distinct⟩
  · intro other mem
    obtain old | rfl := List.mem_or_eq_of_mem_set mem
    · exact hosted.alive other old
    · exact alive
  · intro mem
    exact hosted.open' (head ▸ List.mem_append_right _ mem)
  · have moved := filterMap_set_perm (f := ThreadPool.Thread.loop?) (b := thread) known unseen
    have waits : s.queued = thread.loop?.toList ++ queue.filterMap ThreadPool.Job.loop? := by
      rw [queued, head, List.filterMap_append, same]
      cases job with
      | none => rfl
      | some job => cases shown : job.loop? <;> simp [shown]
    refine ⟨taken ++ thread.loop?.toList, ?_, ?_⟩
    · rw [order, waits, List.append_assoc]
      rfl
    · exact (List.perm_append_comm.trans (held.append_left _)).trans moved.symm

/-- A closure is no loop. -/
theorem Hosted.offload (hosted : Hosted size s h) (system : Nat) :
    Hosted size { s with pool := (s.pool.offer (.offload system)).1 } h := by
  unfold ThreadPool.offer ThreadPool.submit
  split
  case h_1 pool sent =>
    split at sent
    · cases sent
      obtain ⟨taken, order, held⟩ := hosted.order
      refine ⟨hosted.alive, ?_, hosted.sized, ⟨taken, ?_, held⟩, hosted.fresh, hosted.distinct⟩
      · simpa using hosted.open'
      · rw [order]
        congr 1
        show _ = (s.pool.queue ++ [ThreadPool.Job.task (Task.offload system)]).filterMap _
        rw [List.filterMap_append]
        exact (List.append_nil _).symm
    · cases sent
  case h_2 => exact hosted

variable {α : Type} [ListeningAddr α]

theorem machine_hosted (run : (machine α size).Run LocalOnly s h) : Hosted size s h := by
  induction run with
  | start =>
      refine ⟨?_, List.not_mem_nil, List.length_replicate, ⟨[], rfl, ?_⟩,
        fun _ mem => absurd mem List.not_mem_nil, List.nodup_nil⟩
      · intro thread mem
        rw [(List.mem_replicate.mp mem).2]
        rfl
      · have idle : (machine α size).start.running = [] := by
          simp [machine, running, ThreadPool.new, ThreadPool.Thread.loop?]
        rw [idle]
  | @step s t h label seen _ off taken hosted =>
      cases label with
      | run answers system =>
          have connects : system.config.scheduler.totalThreadsRequired ≤ s.pool.size →
              s.pool.connected = true := by
            intro large
            apply hosted.connected
            rw [hosted.sized, SchedulerConfig.totalThreadsRequired] at large
            omega
          have result := @System.run_local α _ s.runs answers system s.pool off connects
          simp only [machine, step, result, Option.some.injEq, Prod.mk.injEq] at taken
          obtain ⟨rfl, rfl⟩ := taken
          split
          case isTrue => exact hosted.accept system []
          case isFalse => exact hosted.refuse system _
      | offload system =>
          obtain ⟨⟨pool, shown⟩, posted, same⟩ := Option.map_eq_some_iff.mp taken
          cases same
          simp only [ThreadPool.step] at posted
          split at posted
          case isTrue =>
            have sent : s.pool.offer (.offload system) = (pool, shown) := Option.some.inj posted
            rw [List.append_nil, show pool = _ from (congrArg Prod.fst sent).symm]
            exact hosted.offload system
          case isFalse => cases posted
      | take index =>
          obtain ⟨⟨pool, shown⟩, moved, same⟩ := Option.map_eq_some_iff.mp taken
          cases same
          rw [List.append_nil]
          obtain ⟨known, job, queue, head, ⟨f, rfl, _, rfl⟩ | ⟨rfl, _⟩⟩ := take_cases moved
          · exact hosted.thread (some (.task f)) known rfl head (by cases f <;> rfl) rfl
          · exact absurd (head ▸ List.mem_cons_self) hosted.open'
      | finish index panics =>
          simp only [machine, step] at taken
          split at taken
          case isFalse => cases taken
          case isTrue offloads =>
            obtain ⟨⟨pool, shown⟩, moved, same⟩ := Option.map_eq_some_iff.mp taken
            cases same
            rw [List.append_nil]
            obtain ⟨f, known, _, rfl⟩ := finish_cases moved
            rw [known] at offloads
            have unseen : (ThreadPool.Thread.running f).loop? = none := by
              cases f <;> first | rfl | cases offloads
            exact hosted.thread none known unseen rfl rfl rfl

/-! ## Loops that have no thread -/

/-- The loops of all started systems, wherever they are. -/
def loops (s : Host) : List Task := s.running ++ s.queued

theorem Hosted.loops_perm (hosted : Hosted size s h) : s.loops.Perm (submitted h) := by
  obtain ⟨taken, order, held⟩ := hosted.order
  rw [order]
  exact held.symm.append_right _

theorem Hosted.nodup (hosted : Hosted size s h) : (submitted h).Nodup := by
  rw [submitted, List.nodup_flatMap]
  refine ⟨fun x _ => nodup_loopsOf x.1 x.2, ?_⟩
  have apart := List.pairwise_map.mp hosted.distinct
  refine apart.imp fun {x y} other => ?_
  intro loop first second
  exact other ((system_of_mem first).symm.trans (system_of_mem second))

theorem mem_running {loop : Task} (mem : loop ∈ s.running) : .running loop ∈ s.pool.workers := by
  obtain ⟨thread, known, shown⟩ := List.mem_filterMap.mp mem
  cases thread with
  | receiving | exited | crashed => cases shown
  | running f => cases f <;> cases shown <;> exact known

theorem running_of_mem {loop : Task} (known : .running loop ∈ s.pool.workers)
    (endless : ∀ system, loop ≠ .offload system) : loop ∈ s.running := by
  refine List.mem_filterMap.mpr ⟨_, known, ?_⟩
  cases loop with
  | workerLoop | eventLoop => rfl
  | offload system => exact absurd rfl (endless system)

/-- Threads that rest while a loop waits are all taken by loops. -/
theorem Hosted.full (hosted : Hosted size s h) (rests : s.Resting) (waits : s.queued ≠ []) :
    s.running.length = size := by
  rw [← hosted.sized, running, ThreadPool.size, List.filterMap_length_eq_length]
  intro thread mem
  have alive := hosted.alive thread mem
  have loops := rests.2 thread mem
  cases thread with
  | receiving =>
      have empty := rests.1 _ mem rfl
      rw [queued, empty] at waits
      exact absurd rfl waits
  | exited | crashed => cases alive
  | running f => cases f <;> first | rfl | cases loops

/-- At rest the loops wait that find no thread. -/
theorem Hosted.queued_eq_nil (hosted : Hosted size s h) (rests : s.Resting) :
    s.queued = [] ↔ demand h ≤ size := by
  have total := hosted.loops_perm.length_eq
  rw [length_submitted, loops, List.length_append] at total
  constructor
  · intro none
    have threads : s.running.length ≤ s.pool.workers.length := List.length_filterMap_le _ _
    have sized : s.pool.workers.length = size := hosted.sized
    rw [none, List.length_nil] at total
    omega
  · intro fits
    by_contra waits
    have full := hosted.full rests waits
    have pos := List.length_pos_of_ne_nil waits
    omega

/-- If loops wait, then the event loop of the last system is one of them. -/
theorem Hosted.last_waits (hosted : Hosted size s h) (waits : s.queued ≠ []) :
    ∃ x ∈ accepted h, .eventLoop x.1 ∈ s.queued := by
  obtain ⟨taken, order, _⟩ := hosted.order
  obtain none | ⟨front, x, last⟩ := List.eq_nil_or_concat (accepted h)
  · rw [submitted, none] at order
    exact absurd (List.append_eq_nil_iff.mp order.symm).2 waits
  · refine ⟨x, by simp [last], ?_⟩
    have split : submitted h =
        (front.flatMap fun x => loopsOf x.1 x.2) ++ workerLoops x.1 x.2 ++ [.eventLoop x.1] := by
      rw [submitted, last, List.concat_eq_append, List.flatMap_append, List.flatMap_singleton,
        loopsOf, List.append_assoc]
    have ends : s.queued.getLast waits = .eventLoop x.1 := by
      have same := congrArg List.getLast? (order.symm.trans split)
      rw [List.getLast?_append_of_ne_nil _ waits, List.getLast?_concat,
        List.getLast?_eq_some_getLast waits] at same
      exact Option.some.inj same
    exact ends ▸ List.getLast_mem waits

/-- A loop that waits has no thread. -/
theorem Hosted.not_running (hosted : Hosted size s h) {loop : Task} (waits : loop ∈ s.queued) :
    loop ∉ s.running := by
  have distinct := hosted.loops_perm.nodup_iff.mpr hosted.nodup
  intro runs
  exact List.disjoint_of_nodup_append distinct runs waits

/-- **Admission.** In every run with local systems, the loops of the systems started so far are
at most as many as the threads exactly when the systems together need no more. When the threads
have taken what they could, exactly then every loop has a thread, and exactly then every
system has its event loop. -/
theorem admitted_iff (run : (machine α size).Run LocalOnly s h) :
    (s.loops.length ≤ s.pool.size ↔ demand h ≤ size) ∧
    (s.Resting →
      ((∀ x ∈ accepted h, ∀ loop ∈ loopsOf x.1 x.2, .running loop ∈ s.pool.workers) ↔
        demand h ≤ size) ∧
      ((∀ x ∈ accepted h, .running (.eventLoop x.1) ∈ s.pool.workers) ↔ demand h ≤ size)) := by
  have hosted := machine_hosted run
  have total := hosted.loops_perm.length_eq
  refine ⟨by rw [total, length_submitted, hosted.sized], fun rests => ?_⟩
  have served : demand h ≤ size →
      ∀ x ∈ accepted h, ∀ loop ∈ loopsOf x.1 x.2, .running loop ∈ s.pool.workers := by
    intro fits x known loop mem
    have none := (hosted.queued_eq_nil rests).mpr fits
    have held : loop ∈ s.loops :=
      hosted.loops_perm.mem_iff.mpr (List.mem_flatMap.mpr ⟨x, known, mem⟩)
    rw [loops, none, List.append_nil] at held
    exact mem_running held
  have needs : (∀ x ∈ accepted h, .running (.eventLoop x.1) ∈ s.pool.workers) →
      demand h ≤ size := by
    intro all
    apply (hosted.queued_eq_nil rests).mp
    by_contra waits
    obtain ⟨x, known, mem⟩ := hosted.last_waits waits
    exact hosted.not_running mem (running_of_mem (all x known) fun _ => Task.noConfusion)
  refine ⟨⟨fun all => needs ?_, served⟩, needs, ?_⟩
  · intro x known
    exact all x known _ (mem_loopsOf.mpr (.inr rfl))
  · intro fits x known
    exact served fits x known _ (mem_loopsOf.mpr (.inr rfl))

/-- A system with the default number of workers that is not shut down. -/
def steady : System :=
  ⟨"app", "host", { SchedulerConfig.default with eagerShutdownEnabled := false }, .default⟩

/-- Two such systems are started, and the threads take the jobs. -/
def twice (size : Nat) : List HostLabel :=
  [HostLabel.run ⟨true, true, true, true⟩ steady, .run ⟨true, true, true, true⟩ steady] ++
    (List.range size).map .take

theorem admitted_iff_roomy :
    ∃ s h, (machine Loopback 10).Run LocalOnly s h ∧ (accepted h).length = 2 ∧ s.Resting ∧
      ∀ x ∈ accepted h, .running (.eventLoop x.1) ∈ s.pool.workers := by
  have run := Machine.run_replay (machine Loopback 10) LocalOnly (twice 10) (by decide)
  exact ⟨_, _, run, by decide, by decide, ((admitted_iff run).2 (by decide)).2.mpr (by decide)⟩

/-- Both systems are accepted, and the event loop of the second one has no thread. -/
theorem crowded_out :
    ∃ s h, (machine Loopback 6).Run LocalOnly s h ∧ (accepted h).length = 2 ∧ s.Resting ∧
      ¬ s.loops.length ≤ s.pool.size ∧
      ¬ ∀ x ∈ accepted h, .running (.eventLoop x.1) ∈ s.pool.workers := by
  have run := Machine.run_replay (machine Loopback 6) LocalOnly (twice 6) (by decide)
  exact ⟨_, _, run, by decide, by decide, by decide, by decide⟩

end Host
end Uppercut
