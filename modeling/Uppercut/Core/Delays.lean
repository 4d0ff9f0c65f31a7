import Uppercut.Core.ActionChannel
import Uppercut.Data.Draw
import Uppercut.Machine.History

/-!
# Delayed messages

Entries wait in a heap until the clock has come close to their instant. Then the release loop
takes them out, the earliest one first, and queues their envelopes. Among equal instants the
heap decides.
-/

namespace Uppercut

/-! ## The heap -/

section Heap

variable {s : Scheduler} {entry : Entry} {now : Nat}

theorem Entry.cmp_ne_gt (a b : Entry) : a.cmp b ≠ .gt ↔ b.at ≤ a.at := by
  rw [Entry.cmp, ne_eq, Ordering.swap_eq_gt, Nat.compare_eq_lt, Nat.not_lt]

/-- On top of the heap is an earliest entry. -/
theorem Scheduler.isTop_iff :
    s.isTop entry = true ↔ ∀ other ∈ s.tasks, entry.at ≤ other.at := by
  simp [isTop, Entry.cmp_ne_gt]

/-- The condition of the release loop holds as long as an entry is due. -/
theorem Scheduler.due_iff : s.due now = true ↔ ∃ entry ∈ s.tasks, entry.at ≤ now := by
  constructor
  · intro due
    rw [Scheduler.due] at due
    split at due
    case h_1 entry shown => exact ⟨entry, List.mem_of_find?_eq_some shown, of_decide_eq_true due⟩
    case h_2 => cases due
  · rintro ⟨entry, mem, small⟩
    obtain ⟨least, _, ⟨index, known, _⟩, top, within⟩ := exists_draws ⟨entry, mem, small⟩
    cases shown : s.peek with
    | none =>
        have none := List.find?_eq_none.mp shown least (List.mem_of_getElem? known)
        exact absurd (Scheduler.isTop_iff.mpr top) none
    | some first =>
        have first_top := Scheduler.isTop_iff.mp (List.find?_some shown)
        rw [Scheduler.due, shown]
        exact decide_eq_true ((first_top entry mem).trans small)

end Heap

/-! ## The release loop -/

/-- The release loop draws the least entries within its bound. -/
theorem LoopMove.draws {phase phase' : Phase} {s s' : Scheduler} {index : Nat} {seen : List Obs}
    (move : LoopMove phase s (.release index) phase' s' seen) :
    phase' = phase ∧ ∃ bound entry, phase = .releasing bound ∧ seen = [.released entry] ∧
      Draws Entry.at bound s.tasks entry s'.tasks := by
  cases move with
  | @release _ now entry releasing popped due top =>
      have least := Scheduler.isTop_iff.mp top
      obtain ⟨other, mem, small⟩ := Scheduler.due_iff.mp due
      exact ⟨rfl, now, entry, releasing, rfl, ⟨index, popped, rfl⟩, least,
        (least other mem).trans small⟩

/-- The release loop takes `entries` out of the heap, one after the other. -/
inductive LoopState.Releases : LoopState → List Entry → LoopState → Prop where
  | nil (s : LoopState) : Releases s [] s
  | cons {s t u : LoopState} {index : Nat} {entry : Entry} {entries : List Entry}
      (taken : s.step (.release index) = some (t, [.released entry]))
      (more : Releases t entries u) : Releases s (entry :: entries) u

section Loop

variable {s t : LoopState} {entry : Entry} {entries : List Entry} {bound : Nat}

theorem LoopState.release_draws {index : Nat} {seen : List Obs}
    (releasing : s.phase = .releasing bound) (taken : s.step (.release index) = some (t, seen)) :
    t.phase = .releasing bound ∧ ∃ entry, seen = [.released entry] ∧
      Draws Entry.at bound s.loop.scheduler.tasks entry t.loop.scheduler.tasks := by
  obtain ⟨same, bound', entry, phase, shown, draws⟩ := (LoopState.step_move taken).draws
  obtain rfl := Phase.releasing.inj (releasing.symm.trans phase)
  exact ⟨same.trans releasing, entry, shown, draws⟩

/-- Whatever can be drawn, the release loop can take. -/
theorem LoopState.exists_release (releasing : s.phase = .releasing bound)
    (due : s.loop.scheduler.due bound = true) :
    ∃ index t entry, s.step (.release index) = some (t, [.released entry]) := by
  obtain ⟨index, entry, popped, top⟩ := Scheduler.exists_top due
  have taken : (s.step (.release index)).isSome = true := by
    rw [LoopState.step, releasing, popped]
    exact congrArg Option.isSome (if_pos ⟨due, top⟩)
  obtain ⟨⟨t, seen⟩, taken⟩ := Option.isSome_iff_exists.mp taken
  obtain ⟨_, entry, rfl, _⟩ := LoopState.release_draws releasing taken
  exact ⟨index, t, entry, taken⟩

/-- The loop goes on to the end of its iteration when nothing is due. -/
theorem LoopState.tick_isSome (releasing : s.phase = .releasing bound) (instant time : Nat) :
    (s.step (.tick instant time)).isSome = true ↔ s.loop.scheduler.due bound = false := by
  rw [LoopState.step, releasing]
  cases due : s.loop.scheduler.due bound <;> simp [due]

theorem LoopState.Releases.drawn (releases : s.Releases entries t)
    (releasing : s.phase = .releasing bound) :
    t.phase = .releasing bound ∧
      Drawn Entry.at bound s.loop.scheduler.tasks entries t.loop.scheduler.tasks := by
  induction releases with
  | nil => exact ⟨releasing, .nil _⟩
  | cons taken _ ih =>
      obtain ⟨still, entry, same, draws⟩ := LoopState.release_draws releasing taken
      cases same
      exact ⟨(ih still).1, .cons draws (ih still).2⟩

/-- The entries that are due at a clock reading are released, in the order of their instants,
and the other entries are left. -/
theorem LoopState.Releases.exact (releases : s.Releases entries t)
    (releasing : s.phase = .releasing bound) (done : t.loop.scheduler.due bound = false) :
    entries.Perm (s.loop.scheduler.tasks.filter fun entry => entry.at ≤ bound) ∧
      entries.Pairwise (fun a b => a.at ≤ b.at) ∧
      t.loop.scheduler.tasks = s.loop.scheduler.tasks.filter fun entry => ¬ entry.at ≤ bound := by
  have drawn := (releases.drawn releasing).2
  have left : ∀ entry ∈ t.loop.scheduler.tasks, ¬ entry.at ≤ bound := by
    intro entry mem small
    rw [Scheduler.due_iff.mpr ⟨entry, mem, small⟩] at done
    cases done
  obtain ⟨taken, rest⟩ := drawn.complete left
  exact ⟨taken, drawn.sorted, rest⟩

end Loop

/-! ## Delays over runs -/

def Action.entry? : Action → Option Entry
  | .delay entry => some entry
  | _ => none

def Obs.released? : Obs → Option Entry
  | .released entry => some entry
  | _ => none

/-- The entries that the event loop has received. -/
def delayed (h : List Obs) : List Entry := (intake h).filterMap Action.entry?

/-- The entries that the event loop has released. -/
def released (h : List Obs) : List Entry := h.filterMap Obs.released?

@[simp] theorem delayed_append (h k : List Obs) : delayed (h ++ k) = delayed h ++ delayed k := by
  rw [delayed, intake_append, List.filterMap_append, delayed, delayed]

@[simp] theorem released_append (h k : List Obs) :
    released (h ++ k) = released h ++ released k := List.filterMap_append

section Moves

variable {phase phase' : Phase} {s s' : Scheduler} {action : Action} {event : Option Event}
variable {flow : Flow} {label : LoopLabel} {seen : List Obs}

theorem Scheduler.delayed_shows (s : Scheduler) (action : Action) (event : Option Event) :
    delayed (s.shows action event) = action.entry?.toList ∧
      released (s.shows action event) = [] := by
  constructor
  · rw [delayed, intake_shows]
    cases action <;> rfl
  · rw [released, s.shows_filterMap action event _ (fun _ _ => rfl) fun _ => rfl]
    cases event <;> rfl

theorem Arm.tasks (arm : Arm s action s' event flow) :
    s'.tasks = s.tasks ++ action.entry?.toList := by
  cases arm with
  | delayed => rfl
  | failed | resumed | rested | stale | spent | woken | queued | spawned | stoppedIdle
  | stoppedBusy | logged | measured | shutdown | undelivered | refused | unstopped =>
      exact (List.append_nil _).symm

/-- The heap grows by the entry that is received and shrinks by the one that is released. -/
theorem LoopMove.heap (move : LoopMove phase s label phase' s' seen) :
    (released seen = [] ∧ s'.tasks = s.tasks ++ delayed seen ∧
      ∀ entry ∈ delayed seen, delayed seen = [entry] ∧
        ∃ connected, label = .receive (.delay entry) connected) ∨
    ∃ bound entry, phase = .releasing bound ∧ seen = [.released entry] ∧
      Draws Entry.at bound s.tasks entry s'.tasks := by
  cases move with
  | crashed | unsent | timeout | clock | tick =>
      exact .inl ⟨rfl, (List.append_nil _).symm, fun _ mem => absurd mem List.not_mem_nil⟩
  | @received action connected s' event flow _ arm =>
      obtain ⟨shown, none⟩ := s.delayed_shows action event
      refine .inl ⟨none, by rw [shown, arm.tasks], ?_⟩
      intro entry mem
      rw [shown] at mem ⊢
      cases action with
      | delay other =>
          obtain rfl := List.mem_singleton.mp mem
          exact ⟨rfl, connected, rfl⟩
      | «return» | spawn | queue | stop | logs | metrics | shutdown => cases mem
  | release releasing popped due top =>
      exact .inr (LoopMove.release releasing popped due top).draws.2

/-- The bound of the release loop is set by the reading of the clock. -/
theorem LoopMove.bound (move : LoopMove phase s label phase' s' seen) {bound : Nat}
    (releasing : phase' = .releasing bound) :
    (∃ index, label = .release index) ∧ phase = .releasing bound ∨
      ∃ now, label = .clock now ∧ bound = now + s.config.delayPrecision / 2 := by
  cases move with
  | crashed | unsent | timeout => cases releasing
  | @received _ _ _ _ flow => cases flow <;> cases releasing
  | @clock now => exact .inr ⟨now, rfl, (Phase.releasing.inj releasing).symm⟩
  | @release index => exact .inl ⟨⟨index, rfl⟩, releasing⟩
  | tick => split at releasing <;> cases releasing

end Moves

/-- The event loop's last reading of the clock. -/
def Label.clock? : Label → Option Nat
  | .loop (.clock now) => some now
  | _ => none

def clockReading (k : List (Label × List Obs)) : Option Nat :=
  k.reverse.findSome? fun x => x.1.clock?

theorem clockReading_concat (k : List (Label × List Obs)) (label : Label) (seen : List Obs) :
    clockReading (k ++ [(label, seen)]) = label.clock?.or (clockReading k) := by
  rw [clockReading, List.reverse_append, List.reverse_singleton, List.singleton_append,
    List.findSome?_cons, clockReading]
  cases label.clock? <;> rfl

/-- What is released was due at the last reading of the clock. -/
def Punctual (config : SchedulerConfig) (before : List (Label × List Obs))
    (x : Label × List Obs) : Prop :=
  ∀ entry ∈ released x.2, ∃ now, clockReading before = some now ∧
    entry.at ≤ now + config.delayPrecision / 2

/-- A step is one of the event loop, or it has nothing to do with delays. -/
theorem Transition.of_loop {s t : Runtime} {label : Label} {seen : List Obs}
    (transition : Transition s label t seen) :
    (∃ l, label = .loop l ∧
      LoopMove s.loop.phase s.scheduler l t.loop.phase t.scheduler seen) ∨
    label.clock? = none ∧ t.loop = s.loop ∧ released seen = [] := by
  cases transition with
  | posted calls | unposted calls => cases calls <;> exact .inr ⟨rfl, rfl, rfl⟩
  | dropped | announced | unannounced | drained | finished => exact .inr ⟨rfl, rfl, rfl⟩
  | @recorded index call now w tag actor =>
      refine .inr ⟨rfl, rfl, ?_⟩
      cases call <;> rfl
  | worker _ move =>
      refine .inr ⟨rfl, rfl, ?_⟩
      cases move <;> rfl
  | loop _ taken | crashed _ taken => exact .inl ⟨_, rfl, LoopState.step_move taken⟩

/-- A delayed envelope for `"a"`. -/
def late («at» stamp : Nat) : Entry :=
  ⟨«at», "a", { Envelope.of (.other 0) with stamp := stamp }⟩

/-- A thread spawns `"a"` and sends it an envelope after each of the durations; the event loop
receives the actions. -/
def delaying (durations : List Nat) : List Label :=
  Label.call 0 (.spawn "a") 0 ::
    (durations.map fun duration => .call 0 (.delay "a" (.of (.other 0)) duration) 0) ++
  ((Action.spawn "a" ⟨0⟩ :: durations.zipIdx.map fun duration =>
      Action.delay (late duration.1 (duration.2 + 1))).flatMap fun action =>
    [Label.loop (.receive action true), .loop (.clock 0), .loop (.tick 0 0)])

section Runs

variable {config : SchedulerConfig} {name host : String} {start : Nat}
variable {s : Runtime} {h : List Obs} {k : List (Label × List Obs)}

/-- A received delay is released once, or it is still in the heap. -/
theorem loop_delays {s : LoopState} (run : (loopMachine config name host start).Reached s h) :
    (delayed h).Perm (released h ++ s.loop.scheduler.tasks) := by
  induction run with
  | start => exact .nil
  | @step s t h label seen _ _ taken ih =>
      rw [delayed_append, released_append]
      obtain ⟨none, grown, _⟩ | ⟨_, entry, _, rfl, draws⟩ := (LoopState.step_move taken).heap
      · rw [none, grown, List.append_nil, ← List.append_assoc]
        exact ih.append_right _
      · show (delayed h ++ []).Perm (released h ++ [entry] ++ t.loop.scheduler.tasks)
        rw [List.append_nil, List.append_assoc]
        exact ih.trans (draws.perm.append_left _)

theorem delayed_ofLoop (h : List Obs) : delayed (h.filterMap Obs.ofLoop) = delayed h := by
  rw [delayed, intake_ofLoop, delayed]

theorem released_ofLoop (h : List Obs) : released (h.filterMap Obs.ofLoop) = released h := by
  rw [released, List.filterMap_filterMap, released]
  apply List.filterMap_congr
  intro x _
  cases x with
  | emitted event => cases event <;> rfl
  | _ => rfl

theorem runtime_bound (run : (runtimeMachine config name host start).traced.Reached s k)
    {bound : Nat} (releasing : s.loop.phase = .releasing bound) :
    ∃ now, clockReading k = some now ∧ bound = now + config.delayPrecision / 2 := by
  induction run with
  | start => cases releasing
  | @step s t k label line before _ taken ih =>
      obtain ⟨seen, step, rfl⟩ := Machine.traced_step taken
      have known := loop_config (runtime_loop before.untrace)
      rw [clockReading_concat]
      obtain ⟨l, rfl, move⟩ | ⟨silent, same, _⟩ := (Runtime.step_transition step).of_loop
      · obtain ⟨⟨index, rfl⟩, still⟩ | ⟨now, rfl, same⟩ := move.bound releasing
        · exact ih still
        · exact ⟨now, rfl, known ▸ same⟩
      · rw [silent]
        exact ih (same ▸ releasing)

/-- What is put on the action channel is received in that order, or it still waits. -/
theorem runtime_posts (run : (runtimeMachine config name host start).Reached s h)
    (running : s.loop.phase.running = true) : posts h = intake h ++ s.actions := by
  obtain ⟨rest, split, same⟩ := runtime_actions run
  rw [split, same running]

theorem runtime_punctual (run : (runtimeMachine config name host start).traced.Reached s k) :
    History.Always (Punctual config) k := by
  induction run with
  | start => exact History.always_nil
  | @step s t k label line before _ taken ih =>
      obtain ⟨seen, step, rfl⟩ := Machine.traced_step taken
      rw [History.always_append, History.alwaysFrom_cons]
      refine ⟨ih, ?_, History.alwaysFrom_nil _⟩
      intro entry mem
      obtain ⟨l, rfl, move⟩ | ⟨_, _, none⟩ := (Runtime.step_transition step).of_loop
      · obtain ⟨none, _⟩ | ⟨bound, _, releasing, rfl, _, _, within⟩ := move.heap
        · exact absurd (none ▸ mem) List.not_mem_nil
        · obtain rfl := List.mem_singleton.mp mem
          obtain ⟨now, reading, rfl⟩ := runtime_bound before releasing
          exact ⟨now, reading, within⟩
      · exact absurd (none ▸ mem) List.not_mem_nil

/-- **Delays are exact.** From every clock reading the release loop takes at most all entries.
While an entry is due it can take one, and only then; at its end it has taken exactly the
entries that are due up to half of the precision, in the order of their instants. What it puts
on the action channel for a delayed envelope is what sending it at once would have put there.
So in every run each delayed entry is posted, received and released once or is still on its
way, and none is released too early. -/
theorem delays_exact (run : (runtimeMachine config name host start).traced.Reached s k) :
    (∀ (l : LoopState) (now : Nat), l.phase = .reading → ∃ m, l.step (.clock now) = some (m, []) ∧
      ∀ entries n, m.Releases entries n →
        entries.length ≤ l.loop.scheduler.tasks.length ∧
        ((∀ instant time, n.step (.tick instant time) = none) ∧
            (∃ index o entry, n.step (.release index) = some (o, [.released entry])) ∨
          (∀ instant time, (n.step (.tick instant time)).isSome = true) ∧
            (∀ index, n.step (.release index) = none) ∧
            entries.Perm (l.loop.scheduler.tasks.filter fun entry =>
              entry.at ≤ now + l.loop.scheduler.config.delayPrecision / 2) ∧
            entries.Pairwise (fun a b => a.at ≤ b.at) ∧
            n.loop.scheduler.tasks = l.loop.scheduler.tasks.filter fun entry =>
              ¬ entry.at ≤ now + l.loop.scheduler.config.delayPrecision / 2)) ∧
    (∀ stamp now address envelope duration, ∃ entry,
      Call.action stamp now (.delay address envelope duration) = some (.delay entry) ∧
      entry.at = now + duration ∧
      Obs.posted? (.released entry) = Call.action stamp now (.send address envelope)) ∧
    (s.loop.phase.running = true →
      posts (k.flatMap Prod.snd) = intake (k.flatMap Prod.snd) ++ s.actions) ∧
    (delayed (k.flatMap Prod.snd)).Perm
      (released (k.flatMap Prod.snd) ++ s.scheduler.tasks) ∧
    History.Always (Punctual config) k := by
  refine ⟨?_, ?_, runtime_posts run.untrace, ?_, runtime_punctual run⟩
  · intro l now reading
    refine ⟨_, if_pos reading, ?_⟩
    intro entries n releases
    obtain ⟨releasing, drawn⟩ := releases.drawn rfl
    refine ⟨drawn.length_le, ?_⟩
    cases due : n.loop.scheduler.due (now + l.loop.scheduler.config.delayPrecision / 2) with
    | true =>
        refine .inl ⟨?_, LoopState.exists_release releasing due⟩
        intro instant time
        have blocked := (LoopState.tick_isSome releasing instant time).not.mpr (by simp [due])
        exact Option.not_isSome_iff_eq_none.mp blocked
    | false =>
        refine .inr ⟨fun instant time => (LoopState.tick_isSome releasing instant time).mpr due,
          ?_, releases.exact rfl due⟩
        intro index
        cases taken : n.step (.release index) with
        | none => rfl
        | some r =>
            obtain ⟨_, entry, _, ⟨⟨index, known, _⟩, _, within⟩⟩ :=
              LoopState.release_draws releasing taken
            rw [Scheduler.due_iff.mpr ⟨entry, List.mem_of_getElem? known, within⟩] at due
            cases due
  · intro stamp now address envelope duration
    let sent := adjustRemoteAddress address { envelope with stamp := stamp }
    exact ⟨⟨now + duration, sent.1, sent.2⟩, rfl, rfl, rfl⟩
  · have loop := loop_delays (runtime_loop run.untrace)
    rw [delayed_ofLoop, released_ofLoop] at loop
    exact loop

/-- Two of three delays are due, the later one was received first. -/
def overlapping : List Label :=
  delaying [3000000, 2000000, 1000000] ++
    [Label.loop .timeout, .loop (.clock 1500000), .loop (.release 2), .loop (.release 1)]

theorem delays_exact_overlapping :
    ∃ s k, (runtimeMachine .default "app" "host" 0).traced.Reached s k ∧
      released (k.flatMap Prod.snd) = [late 1000000 3, late 2000000 2] ∧
      s.scheduler.tasks = [late 3000000 1] ∧
      (delayed (k.flatMap Prod.snd)).Perm (released (k.flatMap Prod.snd) ++ s.scheduler.tasks) ∧
      History.Always (Punctual .default) k := by
  have run := Machine.run_replay (runtimeMachine .default "app" "host" 0).traced
    (fun _ _ _ => True) overlapping (by decide)
  exact ⟨_, _, run, by decide, by decide, (delays_exact run).2.2.2⟩

end Runs

/-! ## Order -/

/-- Of two delays for `tag`, the one that is received first and is due first is released first. -/
def KeepsOrder (tag : Tag) (before : List Obs) (x : Obs) : Prop :=
  ∀ d₁ d₂, x = .released d₂ → [d₁, d₂].Sublist (delayed before) → d₁.tag = tag → d₂.tag = tag →
    d₁.at ≤ d₂.at → d₁ ∈ released before

/-- No delay for `tag` is received while another one for the same instant is pending. -/
def LoopState.DelaysApart (tag : Tag) (s : LoopState) (_ : List Obs) : LoopLabel → Prop
  | .receive (.delay entry) _ =>
      entry.tag = tag → ∀ other ∈ s.loop.scheduler.tasks, other.tag = tag → other.at ≠ entry.at
  | _ => True

/-- The same of the event loop within the runtime. -/
def Runtime.DelaysApart (tag : Tag) (s : Runtime) (h : List Obs) : Label → Prop
  | .loop label => s.loop.DelaysApart tag h label
  | _ => True

instance (tag : Tag) (s : LoopState) (h : List Obs) (label : LoopLabel) :
    Decidable (s.DelaysApart tag h label) := by
  unfold LoopState.DelaysApart
  split <;> infer_instance

instance (tag : Tag) (s : Runtime) (h : List Obs) (label : Label) :
    Decidable (s.DelaysApart tag h label) := by
  unfold Runtime.DelaysApart
  split <;> infer_instance

section Order

variable {config : SchedulerConfig} {name host : String} {start : Nat}
variable {tag : Tag} {h : List Obs} {d₁ d₂ : Entry}

theorem pair_sublist_concat {α : Type} {a b c : α} {l : List α}
    (ordered : [a, b].Sublist (l ++ [c])) : [a, b].Sublist l ∨ a ∈ l ∧ b = c := by
  obtain ⟨l₁, l₂, split, left, right⟩ := List.sublist_append_iff.mp ordered
  obtain rfl | rfl := List.sublist_singleton.mp right
  · rw [List.append_nil] at split
    exact .inl (split ▸ left)
  · obtain ⟨rfl, rfl⟩ := List.append_singleton_inj.mp (show [a] ++ [b] = l₁ ++ [c] from split)
    exact .inr ⟨List.singleton_sublist.mp left, rfl⟩

/-- The first one of two delays for the same instant was released before the second came. -/
theorem released_of_tie {s : LoopState}
    (run : (loopMachine config name host start).Run (LoopState.DelaysApart tag) s h)
    (ordered : [d₁, d₂].Sublist (delayed h)) (own₁ : d₁.tag = tag) (own₂ : d₂.tag = tag)
    (tie : d₁.at = d₂.at) : d₁ ∈ released h := by
  induction run with
  | start => cases ordered
  | @step s t h label seen before apart taken ih =>
      rw [released_append]
      apply List.mem_append_left
      rw [delayed_append] at ordered
      obtain ⟨_, _, one⟩ | ⟨_, _, _, rfl, _⟩ := (LoopState.step_move taken).heap
      · by_cases none : delayed seen = []
        · rw [none, List.append_nil] at ordered
          exact ih ordered
        · obtain ⟨entry, mem⟩ := List.exists_mem_of_ne_nil _ none
          obtain ⟨alone, connected, rfl⟩ := one entry mem
          rw [alone] at ordered
          obtain old | ⟨known, rfl⟩ := pair_sublist_concat ordered
          · exact ih old
          · have held := (loop_delays before.reached).mem_iff.mp known
            obtain gone | pending := List.mem_append.mp held
            · exact gone
            · exact absurd tie (apart own₂ d₁ pending own₁)
      · exact ih ((List.append_nil (delayed h)) ▸ ordered)

theorem loop_in_order {s : LoopState}
    (run : (loopMachine config name host start).Run (LoopState.DelaysApart tag) s h) :
    History.Always (KeepsOrder tag) h := by
  induction run with
  | start => exact History.always_nil
  | @step s t h label seen before _ taken ih =>
      refine (History.always_append h seen).mpr ⟨ih, ?_⟩
      obtain ⟨none, _⟩ | ⟨bound, entry, _, rfl, _, least, _⟩ := (LoopState.step_move taken).heap
      · rintro front x back rfl d₁ d₂ rfl
        simp [released, Obs.released?] at none
      · rw [History.alwaysFrom_cons]
        refine ⟨?_, History.alwaysFrom_nil _⟩
        intro d₁ d₂ same ordered own₁ own₂ first
        cases same
        obtain tie | earlier := first.eq_or_lt
        · exact released_of_tie before ordered own₁ own₂ tie
        · have known : d₁ ∈ delayed h := ordered.mem List.mem_cons_self
          obtain gone | pending :=
            List.mem_append.mp ((loop_delays before.reached).mem_iff.mp known)
          · exact gone
          · exact absurd earlier (least d₁ pending).not_gt

/-- **Order of delays.** Delays for a tag are released in the order in which they were
received and are due, if no two of them are pending for the same instant. -/
theorem delays_in_order {s : Runtime}
    (run : (runtimeMachine config name host start).Run (Runtime.DelaysApart tag) s h) :
    History.Always (KeepsOrder tag) h := by
  have loop : (loopMachine config name host start).Run (LoopState.DelaysApart tag) s.loop
      (h.filterMap Obs.ofLoop) := runtime_loop_run (fun _ _ _ apart => apart) run
  rintro front x back rfl d₁ d₂ rfl ordered
  rw [← delayed_ofLoop] at ordered
  rw [← released_ofLoop]
  refine loop_in_order loop (front.filterMap Obs.ofLoop) (.released d₂)
    (back.filterMap Obs.ofLoop) ?_ d₁ d₂ rfl ordered
  rw [List.filterMap_append]
  rfl

theorem delays_in_order_overlapping :
    ∃ s h, (runtimeMachine .default "app" "host" 0).Run (Runtime.DelaysApart "a") s h ∧
      released h = [late 1000000 3, late 2000000 2] ∧ History.Always (KeepsOrder "a") h := by
  have run := Machine.run_replay (runtimeMachine .default "app" "host" 0)
    (Runtime.DelaysApart "a") overlapping (by decide)
  exact ⟨_, _, run, by decide, delays_in_order run⟩

/-- Four delays for the same instant. When the first one has been released, the last one is
sifted down from the top of a binary heap and the third one takes its place. -/
def tied : List Label :=
  delaying [1000000, 1000000, 1000000, 1000000] ++
    [Label.loop .timeout, .loop (.clock 1000000), .loop (.release 0), .loop (.release 1)]

/-- The third one is released before the second one. -/
theorem delays_out_of_order :
    ∃ s h, (runtimeMachine .default "app" "host" 0).Reached s h ∧
      ¬ History.Always (KeepsOrder "a") h := by
  obtain ⟨s, h, run, split, ordered, pending⟩ :
      ∃ s h, (runtimeMachine .default "app" "host" 0).Reached s h ∧
        h = h.dropLast ++ [.released (late 1000000 3)] ∧
        [late 1000000 2, late 1000000 3].Sublist (delayed h.dropLast) ∧
        late 1000000 2 ∉ released h.dropLast :=
    ⟨_, _, Machine.run_replay (runtimeMachine .default "app" "host" 0) (fun _ _ _ => True) tied
      (by decide), by decide, by decide, by decide⟩
  refine ⟨s, h, run, fun always => pending ?_⟩
  exact always h.dropLast _ [] split _ _ rfl ordered rfl rfl le_rfl

end Order

end Uppercut
