import Uppercut.Machine.Path
import Uppercut.Pool.Ledger

/-!
# What becomes of the jobs of a pool

As long as fewer markers than threads were received, a thread goes on, and the head of the channel
is received: a thread that runs a task comes back, and a thread that receives takes the head. So
what was submitted before the drop is run, each thread receives its marker, and the drop returns.
-/

namespace Uppercut

namespace ThreadPool

variable {τ : Type}

/-! ## The threads along a path -/

section Paths

variable {size : Nat} {s t : ThreadPool τ} {label : Label τ} {seen : List (Obs τ)} {i : Nat}
variable {thread : Thread τ}

/-- A thread receives a job, comes back from its task, or stays where it is. -/
theorem Step.stands (step : Step s label t seen) (contained : ∀ index, label ≠ .burst index)
    (connects : ∀ index, label ≠ .hangUp index) (known : s.workers[i]? = some thread) :
    t.workers[i]? = some thread ∨ label = .take i ∧ thread = .receiving ∨
      (∃ f panics, thread = .running f ∧ label = .finish i panics) ∧
        t.workers[i]? = some .receiving := by
  cases step with
  | @begun index _ _ own | @ended index _ own =>
      by_cases same : index = i
      · subst same
        exact .inr (.inl ⟨rfl, Option.some.inj (known.symm.trans own)⟩)
      · exact .inl ((List.getElem?_set_ne same).trans known)
  | @finished index f panics own =>
      obtain ⟨inside, _⟩ := List.getElem?_eq_some_iff.mp own
      by_cases same : index = i
      · subst same
        have running := Option.some.inj (known.symm.trans own)
        exact .inr (.inr ⟨⟨f, panics, running, rfl⟩, List.getElem?_set_self inside⟩)
      · exact .inl ((List.getElem?_set_ne same).trans known)
  | burst => exact absurd rfl (contained _)
  | hungUp => exact absurd rfl (connects _)
  | put | unsent | linked | dropping | marked | lost | joined | failed | returned =>
      exact .inl known

theorem Step.take_received (step : Step s (.take i) t seen) : received seen ≠ [] := by
  cases step with
  | put _ caller | unsent _ caller => simp at caller
  | linked caller => simp at caller
  | begun | ended => exact List.cons_ne_nil _ _

theorem take_isSome (known : s.workers[i]? = some .receiving) (some_job : s.queue ≠ []) :
    (s.step (.take i)).isSome = true := by
  obtain ⟨job, queue, head⟩ := List.exists_cons_of_ne_nil some_job
  cases job <;> simp [step, known, head]

theorem finish_isSome {f : τ} {panics : Bool} (known : s.workers[i]? = some (.running f)) :
    (s.step (.finish i panics)).isSome = true := by
  rw [step, known]
  rfl

variable {path : (machine (τ := τ) size).Path}

/-- Every thread and the drop go on, and every task comes to its end. -/
structure Fair (path : (machine (τ := τ) size).Path) : Prop where
  takes : ∀ index, path.WeaklyFair (· = .take index)
  finishes : ∀ index, path.WeaklyFair fun label => ∃ panics, label = .finish index panics
  marks : path.WeaklyFair (· = .sendStop)
  joins : path.WeaklyFair (· = .join)
  ends : path.WeaklyFair (· = .done)

theorem sound_at (meets : path.Meets Contained) (n : Nat) :
    Sound size (path.state n) (path.history n) := machine_sound (meets.run n)

/-- Nothing happens, or a step that is allowed. -/
theorem path_cases (meets : path.Meets Contained) (n : Nat) :
    (path.label n = none ∧ path.state (n + 1) = path.state n ∧ path.seen n = []) ∨
      ∃ label, path.label n = some label ∧
        Step (path.state n) label (path.state (n + 1)) (path.seen n) ∧
        (∀ index, label ≠ .burst index) ∧ ∀ index, label ≠ .hangUp index := by
  cases known : path.label n with
  | none => exact .inl ⟨rfl, path.waits known⟩
  | some label =>
      have step := step_cases (path.moves known)
      refine .inr ⟨label, rfl, step, ?_, ((sound_at meets n).calm_step step).1⟩
      rintro index rfl
      exact meets n _ known

/-- The number of jobs that were received. -/
def got (path : (machine (τ := τ) size).Path) (n : Nat) : Nat :=
  (received (path.history n)).length

theorem got_succ (n : Nat) : got path (n + 1) = got path n + (received (path.seen n)).length := by
  rw [got, path.history_succ, received_append, List.length_append, got]

/-- All that was put on the channel. -/
def channel (path : (machine (τ := τ) size).Path) (n : Nat) : List (Job τ) :=
  received (path.history n) ++ (path.state n).queue

theorem channel_mono (meets : path.Meets Contained) {n k : Nat} (later : n ≤ k) :
    channel path n <+: channel path k := by
  induction k, later using Nat.le_induction with
  | base => exact List.prefix_refl _
  | succ k _ ih =>
      refine ih.trans ?_
      rw [channel, channel, path.history_succ]
      obtain ⟨_, same, silent⟩ | ⟨label, _, step, _⟩ := path_cases meets k
      · rw [same, silent, List.append_nil]
      · obtain ⟨new, split, _⟩ := (sound_at meets k).channel step
        rw [split]
        exact List.prefix_append _ _

theorem received_mono {n k : Nat} (later : n ≤ k) :
    received (path.history n) <+: received (path.history k) :=
  (Machine.Path.history_mono later).filterMap _

/-- A job waits until a job is received. -/
theorem got_or_waits (meets : path.Meets Contained) {n k : Nat} (later : n ≤ k)
    (some_job : (path.state n).queue ≠ []) :
    got path n < got path k ∨ got path k = got path n ∧ (path.state k).queue ≠ [] := by
  have more : got path n ≤ got path k := (received_mono later).length_le
  obtain less | same := more.lt_or_eq
  · exact .inl less
  · refine .inr ⟨same.symm, fun none => some_job (List.eq_nil_of_length_eq_zero ?_)⟩
    have whole := (channel_mono meets later).length_le
    rw [channel, channel, none, List.append_nil, List.length_append] at whole
    rw [got, got] at same
    omega

theorem stands_at (meets : path.Meets Contained) {n : Nat}
    (known : (path.state n).workers[i]? = some thread) :
    (path.state (n + 1)).workers[i]? = some thread ∨
      path.label n = some (.take i) ∧ thread = .receiving ∨
      (∃ f panics, thread = .running f ∧ path.label n = some (.finish i panics)) ∧
        (path.state (n + 1)).workers[i]? = some .receiving := by
  obtain ⟨_, same, _⟩ | ⟨label, taken, step, contained, connects⟩ := path_cases meets n
  · exact .inl (same ▸ known)
  · rw [taken]
    obtain still | ⟨rfl, idle⟩ | ⟨⟨f, panics, running, rfl⟩, back⟩ :=
      step.stands contained connects known
    · exact .inl still
    · exact .inr (.inl ⟨rfl, idle⟩)
    · exact .inr (.inr ⟨⟨f, panics, running, rfl⟩, back⟩)

/-- A thread that receives takes the head of the channel, if no other thread does. -/
theorem Fair.takes_head (fair : Fair path) (meets : path.Meets Contained) (r i : Nat) :
    LeadsTo (fun n => (path.state n).workers[i]? = some .receiving ∧
      (path.state n).queue ≠ [] ∧ got path n = r) fun n => r < got path n := by
  refine (fair.takes i).leadsTo ?_ ?_ ?_
  · rintro n ⟨known, some_job, rfl⟩ idle
    obtain more | ⟨same, waits⟩ := got_or_waits meets (Nat.le_succ n) some_job
    · exact .inr more
    · obtain still | ⟨taken, _⟩ | ⟨⟨_, _, running, _⟩, _⟩ := stands_at meets known
      · exact .inl ⟨still, waits, same⟩
      · exact absurd ⟨_, rfl, taken⟩ idle
      · cases running
  · rintro n ⟨known, some_job, _⟩
    exact ⟨.take i, rfl, take_isSome known some_job⟩
  · rintro n ⟨_, _, rfl⟩ ⟨_, rfl, taken⟩
    have step := step_cases (path.moves taken)
    rw [got_succ]
    exact Nat.lt_add_of_pos_right (List.length_pos_of_ne_nil step.take_received)

/-- A thread that runs a task comes back to receive. -/
theorem Fair.comes_back (fair : Fair path) (meets : path.Meets Contained) (i : Nat) (f : τ) :
    LeadsTo (fun n => (path.state n).workers[i]? = some (.running f)) fun n =>
      (path.state n).workers[i]? = some .receiving := by
  refine (fair.finishes i).leadsTo ?_ ?_ ?_
  · intro n known _
    obtain still | ⟨_, idle⟩ | ⟨_, back⟩ := stands_at meets known
    · exact .inl still
    · cases idle
    · exact .inr back
  · intro n known
    exact ⟨.finish i true, ⟨true, rfl⟩, finish_isSome known⟩
  · rintro n known ⟨_, ⟨panics, rfl⟩, taken⟩
    obtain ⟨_, _, _, next⟩ := finish_cases (path.moves taken)
    obtain ⟨inside, _⟩ := List.getElem?_eq_some_iff.mp known
    rw [next]
    exact List.getElem?_set_self inside

/-- As long as a thread goes on, the head of the channel is received. -/
theorem Fair.receives (fair : Fair path) (meets : path.Meets Contained) {n : Nat}
    (some_job : (path.state n).queue ≠ []) (few : stops (received (path.history n)) < size) :
    ∃ k, n ≤ k ∧ got path n < got path k := by
  obtain ⟨i, thread, known, here⟩ := (sound_at meets n).exists_alive few
  cases thread with
  | receiving => exact fair.takes_head meets _ i n ⟨known, some_job, rfl⟩
  | running f =>
      obtain ⟨k, later, idle⟩ := fair.comes_back meets i f n known
      obtain more | ⟨same, waits⟩ := got_or_waits meets later some_job
      · exact ⟨k, later, more⟩
      · obtain ⟨l, last, more⟩ := fair.takes_head meets _ i k ⟨idle, waits, same⟩
        exact ⟨l, later.trans last, more⟩
  | exited | crashed => cases here

/-- What is on the channel is received, unless all threads have received their markers. -/
theorem Fair.drains (fair : Fair path) (meets : path.Meets Contained) (n : Nat) :
    ∃ k, n ≤ k ∧ (channel path n <+: received (path.history k) ∨
      size ≤ stops (received (path.history k))) := by
  have received_all : LeadsTo (fun k => n ≤ k) fun k =>
      channel path n <+: received (path.history k) ∨
        size ≤ stops (received (path.history k)) := by
    refine LeadsTo.descend (fun k => (channel path n).length - got path k) ?_
    intro k later
    by_cases few : stops (received (path.history k)) < size
    case neg => exact ⟨k, Nat.le_refl k, .inl (.inr (Nat.le_of_not_lt few))⟩
    have inside := channel_mono meets later
    by_cases short : got path k < (channel path n).length
    case neg =>
      refine ⟨k, Nat.le_refl k, .inl (.inl ?_)⟩
      exact List.prefix_of_prefix_length_le inside (List.prefix_append _ _) (Nat.le_of_not_lt short)
    have some_job : (path.state k).queue ≠ [] := by
      intro none
      have whole := inside.length_le
      rw [channel, channel, none, List.append_nil] at whole
      rw [channel] at short
      exact absurd short (Nat.not_lt.mpr whole)
    obtain ⟨l, after, more⟩ := fair.receives meets some_job few
    exact ⟨l, after, .inr ⟨later.trans after, Nat.sub_lt_sub_left short more⟩⟩
  exact received_all n (Nat.le_refl n)

/-- What was submitted before the drop is started. -/
theorem Fair.starts (fair : Fair path) (meets : path.Meets Contained) (pos : 0 < size) (n : Nat) :
    ∃ k, n ≤ k ∧ early (path.history n) <+: started (path.history k) := by
  obtain ⟨k, later, all | ended⟩ := fair.drains meets n
  · refine ⟨k, later, ?_⟩
    have front := ((sound_at meets n).early.trans all).filterMap Job.task?
    exact tasks_map (early (path.history n)) ▸ front
  · obtain ⟨more, whole⟩ := @Machine.Path.history_mono _ _ _ _ path n k later
    have front := early_append (path.history n) more
    rw [whole] at front
    exact ⟨k, later, front.trans ((sound_at meets k).early_started (pos.trans_le ended))⟩

/-- A thread finishes what it runs. -/
theorem Fair.finishes_task (fair : Fair path) (meets : path.Meets Contained) (n i : Nat) :
    ∃ k, n ≤ k ∧ startedOn i (path.history n) <+: finishedOn i (path.history k) := by
  have turns := (sound_at meets n).turns i
  cases running : (path.state n).task? i with
  | none =>
      rw [running, Option.toList_none, List.append_nil] at turns
      exact ⟨n, Nat.le_refl n, turns ▸ List.prefix_refl _⟩
  | some f =>
      obtain ⟨thread, known, runs⟩ := Option.bind_eq_some_iff.mp running
      have known' : (path.state n).workers[i]? = some (.running f) := by
        cases thread <;> cases runs
        exact known
      obtain ⟨k, later, idle⟩ := fair.comes_back meets i f n known'
      have after := (sound_at meets k).turns i
      rw [task?, idle, Option.bind_some, Thread.task?, Option.toList_none, List.append_nil] at after
      exact ⟨k, later, after ▸ (Machine.Path.history_mono later).filterMap _⟩

theorem finishedOn_mono (i : Nat) {n k : Nat} (later : n ≤ k) :
    finishedOn i (path.history n) <+: finishedOn i (path.history k) :=
  (Machine.Path.history_mono later).filterMap _

/-- All threads finish what they run. -/
theorem Fair.finishes_all (fair : Fair path) (meets : path.Meets Contained) (n : Nat) :
    ∃ k, n ≤ k ∧ ∀ i, startedOn i (path.history n) <+: finishedOn i (path.history k) := by
  have threads := @LeadsTo.forall_lt (· = n)
    (fun i k => startedOn i (path.history n) <+: finishedOn i (path.history k))
    (fun i k done => done.trans (finishedOn_mono i (Nat.le_succ k)))
    (fun i m now => now ▸ fair.finishes_task meets n i) size
  obtain ⟨k, later, inside⟩ := threads n rfl
  refine ⟨k, later, fun i => ?_⟩
  by_cases known : i < size
  · exact inside i known
  · have sound := sound_at meets n
    have beyond : (path.state n).workers.length ≤ i := sound.sized.trans_le (Nat.not_lt.mp known)
    have turns := sound.turns i
    rw [task?, List.getElem?_eq_none beyond, Option.bind_none, Option.toList_none,
      List.append_nil] at turns
    exact turns ▸ finishedOn_mono i later

/-! ## The drop along a path -/

/-- The step of the drop that is due: it sends a marker, joins a thread or returns. -/
def due (size sent joined : Nat) : Label τ :=
  if sent < size then .sendStop else if joined < size then .join else .done

/-- How far it has come then. -/
def advanced (size sent joined : Nat) : Lifetime :=
  if sent < size then .dropping (sent + 1) joined
  else if joined < size then .dropping sent (joined + 1)
  else .dropped

/-- The drop stays where it is until it takes the step that is due. -/
theorem Step.drops {sent joined : Nat} (step : Step s label t seen)
    (phase : s.lifetime = .dropping sent joined) (calm : t.lifetime ≠ .panicked) :
    t.lifetime = .dropping sent joined ∧ label ≠ due s.size sent joined ∨
      t.lifetime = advanced s.size sent joined := by
  have other (passes : label ≠ .sendStop ∧ label ≠ .join ∧ label ≠ .done) :
      label ≠ due s.size sent joined := by
    unfold due
    split
    · exact passes.1
    · split
      · exact passes.2.1
      · exact passes.2.2
  cases step with
  | put _ caller | unsent _ caller | linked caller =>
      refine .inl ⟨phase, other ?_⟩
      refine ⟨?_, ?_, ?_⟩ <;> rintro rfl <;> simp at caller
  | begun | ended | finished | burst | hungUp => exact .inl ⟨phase, other ⟨nofun, nofun, nofun⟩⟩
  | dropping held => cases phase.symm.trans held
  | marked phase' few =>
      cases phase.symm.trans phase'
      exact .inr (if_pos few).symm
  | joined phase' all known =>
      cases phase.symm.trans phase'
      obtain ⟨inside, _⟩ := List.getElem?_eq_some_iff.mp known
      right
      rw [advanced, if_neg all.not_lt]
      exact (if_pos inside).symm
  | returned phase' =>
      cases phase.symm.trans phase'
      right
      rw [advanced, if_neg (Nat.lt_irrefl _), if_neg (Nat.lt_irrefl _)]
  | lost | failed => exact absurd rfl calm

/-- What is due can be done, once the thread that is to be joined has ended. -/
theorem due_isSome {sent joined : Nat} (phase : s.lifetime = .dropping sent joined)
    (most : sent ≤ s.size ∧ joined ≤ s.size)
    (ended : s.size ≤ sent → joined < s.size → s.workers[joined]? = some .exited) :
    (s.step (due s.size sent joined)).isSome = true := by
  unfold due
  by_cases few : sent < s.size
  · rw [if_pos few]
    cases open' : s.connected <;> simp [step, phase, few, open']
  · have all := most.1.antisymm (Nat.not_lt.mp few)
    rw [if_neg few]
    by_cases more : joined < s.size
    · rw [if_pos more]
      simp [step, phase, ended (Nat.not_lt.mp few) more, all]
    · have none := most.2.antisymm (Nat.not_lt.mp more)
      rw [if_neg more]
      simp [step, phase, all, none]

/-- The drop goes on, when it need not wait for a thread. -/
theorem Fair.goes_on (fair : Fair path) (meets : path.Meets Contained) {n sent joined : Nat}
    (phase : (path.state n).lifetime = .dropping sent joined)
    (ended : size ≤ sent → size ≤ stops (received (path.history n))) :
    ∃ k, n ≤ k ∧ (path.state k).lifetime = advanced size sent joined := by
  have fair_due : path.WeaklyFair (· = due size sent joined) := by
    unfold due
    split
    · exact fair.marks
    · split
      · exact fair.joins
      · exact fair.ends
  have leads : LeadsTo (fun k => n ≤ k ∧ (path.state k).lifetime = .dropping sent joined)
      fun k => (path.state k).lifetime = advanced size sent joined := by
    have next (k : Nat) (now : (path.state k).lifetime = .dropping sent joined) :
        (path.state (k + 1)).lifetime = .dropping sent joined ∧
            path.label k ≠ some (due size sent joined) ∨
          (path.state (k + 1)).lifetime = advanced size sent joined := by
      obtain ⟨idle, same, _⟩ | ⟨label, taken, step, _⟩ := path_cases meets k
      · refine .inl ⟨same ▸ now, ?_⟩
        rw [idle]
        exact nofun
      · have drops := step.drops now (sound_at meets (k + 1)).calm
        rw [(sound_at meets k).sized] at drops
        refine drops.imp_left fun stays => ⟨stays.1, ?_⟩
        rw [taken]
        exact fun same => stays.2 (Option.some.inj same)
    refine fair_due.leadsTo ?_ ?_ ?_
    · rintro k ⟨later, now⟩ _
      exact (next k now).imp_left fun stays => ⟨Nat.le_succ_of_le later, stays.1⟩
    · rintro k ⟨later, now⟩
      have sound := sound_at meets k
      obtain ⟨most, few, _⟩ := sound.sending sent joined now
      refine ⟨due size sent joined, rfl, ?_⟩
      have ready := due_isSome now (sound.sized.symm ▸ ⟨most, few⟩) ?_
      · rwa [sound.sized] at ready
      intro all inside
      have stopped := ended (sound.sized ▸ all)
      exact sound.exited (stopped.trans (received_mono later).sublist.countP_le) inside
    · rintro k ⟨_, now⟩ ⟨_, rfl, taken⟩
      exact (next k now).resolve_left fun stays => stays.2 taken
  exact leads n ⟨Nat.le_refl n, phase⟩

theorem mem_history_mono {x : Obs τ} {n k : Nat} (later : n ≤ k) (mem : x ∈ path.history n) :
    x ∈ path.history k := (Machine.Path.history_mono later).subset mem

/-- A drop sends a marker for each thread. -/
theorem Fair.sends (fair : Fair path) (meets : path.Meets Contained) :
    LeadsTo (fun n => .dropping ∈ path.history n) fun n =>
      .dropping ∈ path.history n ∧ (path.state n).lifetime.marks size = size := by
  refine LeadsTo.descend (fun n => size - (path.state n).lifetime.marks size) ?_
  intro n begun
  have sound := sound_at meets n
  obtain ⟨sent, joined, phase⟩ | phase := sound.lifetime_cases begun
  · obtain ⟨most, _⟩ := sound.sending sent joined phase
    by_cases few : sent < size
    · obtain ⟨k, later, next⟩ :=
        fair.goes_on meets phase fun all => absurd few (Nat.not_lt.mpr all)
      rw [advanced, if_pos few] at next
      refine ⟨k, later, .inr ⟨mem_history_mono later begun, ?_⟩⟩
      rw [next, phase]
      exact Nat.sub_succ_lt_self size sent few
    · refine ⟨n, Nat.le_refl n, .inl ⟨begun, ?_⟩⟩
      rw [phase]
      exact most.antisymm (Nat.not_lt.mp few)
  · refine ⟨n, Nat.le_refl n, .inl ⟨begun, ?_⟩⟩
    rw [phase]
    rfl

/-- The threads receive the markers. -/
theorem Fair.stops_all (fair : Fair path) (meets : path.Meets Contained) :
    LeadsTo (fun n => .dropping ∈ path.history n ∧ (path.state n).lifetime.marks size = size)
      fun n => .dropping ∈ path.history n ∧ size ≤ stops (received (path.history n)) := by
  rintro n ⟨begun, marks⟩
  obtain ⟨k, later, all | ended⟩ := fair.drains meets n
  · refine ⟨k, later, mem_history_mono later begun, ?_⟩
    calc
      size = stops (channel path n) := marks.symm.trans (sound_at meets n).marks.symm
      _ ≤ stops (received (path.history k)) := all.sublist.countP_le
  · exact ⟨k, later, mem_history_mono later begun, ended⟩

/-- The threads that have been joined. -/
def Lifetime.joins : Lifetime → Nat
  | .dropping _ joined => joined
  | .held | .dropped | .panicked => 0

/-- When all threads have ended, the drop joins them and returns. -/
theorem Fair.joins_all (fair : Fair path) (meets : path.Meets Contained) :
    LeadsTo (fun n => .dropping ∈ path.history n ∧ size ≤ stops (received (path.history n)))
      fun n => .returned ∈ path.history n := by
  refine LeadsTo.descend (fun n => size - (path.state n).lifetime.joins) ?_
  rintro n ⟨begun, ended⟩
  have sound := sound_at meets n
  obtain ⟨sent, joined, phase⟩ | phase := sound.lifetime_cases begun
  · have all : size ≤ sent := by
      have most := sound.stops_le
      rw [phase] at most
      exact ended.trans most
    obtain ⟨k, later, next⟩ := fair.goes_on meets phase fun _ => ended
    rw [advanced, if_neg (Nat.not_lt.mpr all)] at next
    refine ⟨k, later, ?_⟩
    split at next
    case isTrue more =>
      have still := ended.trans (received_mono later).sublist.countP_le
      refine .inr ⟨⟨mem_history_mono later begun, still⟩, ?_⟩
      rw [next, phase]
      exact Nat.sub_succ_lt_self size joined more
    case isFalse => exact .inl ((sound_at meets k).dropped next).1
  · exact ⟨n, Nat.le_refl n, .inl (sound.dropped phase).1⟩

/-- A drop that has begun returns. -/
theorem Fair.returns (fair : Fair path) (meets : path.Meets Contained) :
    LeadsTo (fun n => .dropping ∈ path.history n) fun n => .returned ∈ path.history n :=
  ((fair.sends meets).trans (fair.stops_all meets)).trans (fair.joins_all meets)

/-- What was submitted before the drop is executed. -/
theorem Fair.executes (fair : Fair path) (meets : path.Meets Contained) (pos : 0 < size) (n : Nat) :
    ∃ k, n ≤ k ∧ Executed (early (path.history n)) (path.history k) := by
  obtain ⟨k, later, front⟩ := fair.starts meets pos n
  obtain ⟨l, last, done⟩ := fair.finishes_all meets k
  exact ⟨l, later.trans last, path.history k, Machine.Path.history_mono last, front, done⟩

/-- **Every task runs once.** If no task panics with a value whose drop panics: in every run the
tasks are started in the order in which they were submitted, each thread finishes one before it
starts the next, and it goes on until it has received its only marker; and what is submitted
before the drop is executed when the drop returns. On every fair path it is executed, and a drop
that has begun returns. -/
theorem runs_once (pos : 0 < size) :
    (∀ (s : ThreadPool τ) (h : List (Obs τ)), (machine size).Run Contained s h →
      submitted h = started h ++ s.waiting ∧
      (∀ index, startedOn index h = finishedOn index h ++ (s.task? index).toList) ∧
      (∀ index < size, stopsOn index h = if s.alive index then 0 else 1) ∧
      History.Always (Orderly size) h) ∧
    ∀ path : (machine (τ := τ) size).Path, path.Meets Contained → Fair path →
      (∀ n, ∃ k, Executed (early (path.history n)) (path.history k)) ∧
      ((∃ n, .dropping ∈ path.history n) → ∃ n, .returned ∈ path.history n) := by
  constructor
  · intro s h run
    have sound := machine_sound run
    refine ⟨sound.accounted, sound.turns, ?_, machine_orderly pos run⟩
    intro index inside
    rw [sound.stopped index inside]
    cases s.alive index <;> rfl
  · intro path meets fair
    constructor
    · intro n
      obtain ⟨k, _, executed⟩ := fair.executes meets pos n
      exact ⟨k, executed⟩
    · rintro ⟨n, begun⟩
      obtain ⟨k, _, returned⟩ := fair.returns meets n begun
      exact ⟨k, returned⟩

/-- A path that comes to rest is fair if all threads have ended and the drop is over. -/
theorem fair_of_ended {labels : List (Label τ)} {follows : (machine (τ := τ) size).Follows labels}
    (rest : (machine size).after labels labels.length = s)
    (ended : ∀ thread ∈ s.workers, thread.ended = true)
    (past : s.lifetime = .dropped ∨ s.lifetime = .panicked) :
    Fair (Machine.restingPath follows) := by
  have gone {index : Nat} {thread : Thread τ} (known : s.workers[index]? = some thread) :
      thread.ended = true := ended thread (List.mem_of_getElem? known)
  refine ⟨?_, ?_, ?_, ?_, ?_⟩
  · refine fun index => Machine.restingPath_fair ?_
    rintro _ rfl
    rw [rest]
    refine Option.eq_none_iff_forall_ne_some.mpr fun r taken => ?_
    cases gone (@take_cases τ s r.1 r.2 index taken).1
  · refine fun index => Machine.restingPath_fair ?_
    rintro _ ⟨panics, rfl⟩
    rw [rest]
    refine Option.eq_none_iff_forall_ne_some.mpr fun r taken => ?_
    obtain ⟨f, known, _⟩ := @finish_cases τ s r.1 r.2 index panics taken
    cases gone known
  all_goals
    refine Machine.restingPath_fair ?_
    rintro _ rfl
    rw [rest]
    obtain past | past := past <;> simp [machine, step, past]

end Paths

/-- One task returns, one panics, and one is posted by a link during the drop. -/
def shared : List (Label String) :=
  [.link, .submit "a", .submit "b", .take 0, .take 1, .finish 1 true, .drop, .sendStop, .post "c",
    .sendStop, .unlink, .take 1, .finish 0 false, .take 0, .finish 0 false, .take 0, .join, .join,
    .done]

def sharedPath : (machine (τ := String) 2).Path :=
  Machine.restingPath (show (machine 2).Follows shared by decide)

theorem runs_once_shared :
    sharedPath.Meets Contained ∧ Fair sharedPath ∧ early (sharedPath.history 19) = ["a", "b"] ∧
      (∃ k, Executed (early (sharedPath.history 19)) (sharedPath.history k)) ∧
      (∃ n, .returned ∈ sharedPath.history n) ∧
      History.Always (Orderly 2) (sharedPath.history 19) := by
  have contained : ∀ a ∈ shared, Contained (new 2) [] a := by decide
  have meets : sharedPath.Meets Contained :=
    Machine.restingPath_meets fun a mem _ _ => contained a mem
  have fair : Fair sharedPath := fair_of_ended rfl (by decide) (by decide)
  obtain ⟨runs, paths⟩ := @runs_once String 2 (by decide)
  obtain ⟨executes, returns⟩ := paths sharedPath meets fair
  exact ⟨meets, fair, by decide, executes 19, returns ⟨19, by decide⟩,
    (runs _ _ (meets.run 19)).2.2.2⟩

/-- The first task panics with a value whose drop panics. -/
def bursting : List (Label String) :=
  [.submit "a", .submit "b", .take 0, .burst 0, .drop, .sendStop]

def burstingPath : (machine (τ := String) 1).Path :=
  Machine.restingPath (show (machine 1).Follows bursting by decide)

/-- It takes the only thread down: the second task is never run, the thread receives no marker,
and the drop does not return. -/
theorem task_lost :
    Fair burstingPath ∧ (burstingPath.state 6).workers = [.crashed] ∧
      .dropping ∈ burstingPath.history 6 ∧ early (burstingPath.history 6) = ["a", "b"] ∧
      ∀ n, ¬ Executed ["a", "b"] (burstingPath.history n) ∧ stopsOn 0 (burstingPath.history n) = 0 ∧
        .returned ∉ burstingPath.history n := by
  have fair : Fair burstingPath := fair_of_ended rfl (by decide) (by decide)
  refine ⟨fair, by decide, by decide, by decide, fun n => ?_⟩
  have seen : burstingPath.history n <+: burstingPath.history 6 := Machine.history_restingPath _ n
  refine ⟨?_, ?_, ?_⟩
  · rintro ⟨k, front, started_all, _⟩
    have all : started k <+: started (burstingPath.history 6) :=
      ((front.trans seen).filterMap _).filterMap _
    exact absurd (started_all.trans all).length_le (by decide)
  · have most : stopsOn 0 (burstingPath.history n) ≤ stopsOn 0 (burstingPath.history 6) :=
      seen.sublist.countP_le
    exact Nat.eq_zero_of_le_zero (most.trans_eq (by decide))
  · exact fun mem => absurd (seen.subset mem) (by decide)

end ThreadPool
end Uppercut
