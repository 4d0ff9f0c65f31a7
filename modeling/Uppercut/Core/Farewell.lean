import Uppercut.Core.Deliveries

/-!
# Every stopped instance is told

A stop takes its instance out of `actors`, or it finds the instance away. In the second case the
instance comes back, and is told then, if it was not told by `on_fail` before. So on a fair path
each instance whose stop was accepted sees `on_stop` or `on_fail`, unless the event loop ends.
-/

namespace Uppercut

section Step

variable {s t : Runtime} {label : Label} {seen : List Obs} {tag : Tag} {actor : Actor}

/-- Who takes a stop event calls `on_stop`. -/
theorem Transition.tells (transition : Transition s label t seen)
    (taken : Event.stop tag actor ∈ intakeEvents seen) :
    ∃ i, Obs.called i tag actor .onStop ∈ seen := by
  cases transition with
  | recorded =>
      rw [(recordObs_channel ..).1] at taken
      cases taken
  | loop _ went | crashed _ went =>
      rw [(LoopState.step_move went).not_taken] at taken
      cases taken
  | @worker i _ _ _ _ w' _ _ known move =>
      rw [move.takes.1] at taken
      obtain rfl := Option.mem_toList.mp taken
      cases move
      exact ⟨i, by simp⟩
  | posted | unposted | dropped | announced | unannounced | drained | finished => cases taken

/-- What is counted of an instance is in `actors` or travels. -/
theorem holds_of_census {P : Place → Bool} (some_place : 0 < census tag (one actor P) s) :
    s.scheduler.actors tag = some actor ∨
      ∃ token ∈ s.travelling, token.tag = tag ∧ token.actor = actor ∧ P token.place = true := by
  rw [Nat.pos_iff_ne_zero, Ne, census_eq_zero, not_and_or] at some_place
  apply some_place.imp
  · intro idle
    cases known : s.scheduler.actors tag with
    | none => simp [Scheduler.token?, known] at idle
    | some other =>
        simp only [Scheduler.token?, known, Option.map_some, weight_one,
          ite_eq_right_iff, one_ne_zero, imp_false, not_not] at idle
        rw [idle.2.1]
  · intro travels
    push Not at travels
    obtain ⟨token, mem, counts⟩ := travels
    simp only [weight_one, ne_eq, ite_eq_right_iff, one_ne_zero, imp_false, not_not] at counts
    exact ⟨token, mem, counts⟩

/-- Nobody idles on the way, and a stop that is mailed is an event. -/
theorem place_of_travelling {token : Token} (mem : token ∈ s.travelling) :
    token.place ≠ .idle ∧
      (token.place = .stopMailed → Event.stop token.tag token.actor ∈ s.events) := by
  simp only [Runtime.travelling, List.mem_append, List.mem_filterMap] at mem
  obtain (⟨event, waits, known⟩ | ⟨w, _, known⟩) | ⟨action, _, known⟩ := mem
  · cases event <;> cases known
    · simp
    · exact ⟨by simp, fun _ => waits⟩
  · cases stage : w.stage <;> rw [stage] at known <;> cases known <;> simp
  · cases action <;> cases known <;> simp

theorem retired_mono {h k : List Obs} (longer : h <+: k) (ended : actor ∈ retired tag h) :
    actor ∈ retired tag k := by
  obtain ⟨rest, rfl⟩ := longer
  rw [retired, History.gather_append]
  exact List.mem_append_left _ ended

end Step

variable {config : SchedulerConfig} {name host : String} {start : Nat}
variable {path : (runtimeMachine config name host start).Path}
variable {n : Nat} {tag : Tag} {actor : Actor}

/-- An instance that was not told is still among the living, and only there. -/
theorem runtime_untold {s : Runtime} {h : List Obs}
    (run : (runtimeMachine config name host start).Run Runtime.KeepsInstances s h)
    (running : s.loop.phase.running = true) (ended : actor ∈ retired tag h)
    (untold : h.countP (Obs.buries tag actor) = 0) :
    0 < census tag (one actor Place.unburied) s ∧
      census tag (one actor (· = .returned false)) s = 0 := by
  have least := accepted_le run running tag actor
  have most := (admission tag actor).run run
  have once := admitted_once run tag actor
  have some : 0 < h.countP (Obs.admits tag actor) :=
    List.countP_pos_iff.mpr ⟨_, spawned_of_retired ended, by simp [Obs.admits]⟩
  have apart : ∀ place, (Place.unburied place).toNat + (decide (place = .returned false)).toNat ≤
      (Place.admitted place).toNat := by
    intro place
    cases place with
    | returned ok => cases ok <;> simp [Place.unburied, Place.admitted]
    | returning ok => cases ok <;> simp [Place.unburied, Place.admitted]
    | _ => simp [Place.unburied, Place.admitted]
  have split := census_one_add_le apart tag actor s
  omega

/-- A stopped instance that comes back well is sent a stop event. -/
theorem runtime_dismisses (inTime : path.Meets Runtime.ReturnsInTime)
    (ended : actor ∈ retired tag (path.history n))
    (back : Action.return tag actor true ∈ intake (path.seen n)) :
    Event.stop tag actor ∈ (path.state (n + 1)).events := by
  obtain ⟨_, _, silent⟩ | ⟨label, taken, transition⟩ := runtime_path_cases path n
  · rw [silent] at back
    cases back
  · have sound := runtime_sound (inTime.run n)
    obtain ⟨_, event, flow, rfl, arm, _, shows⟩ := transition.hears sound back
    have inactive := inTime n _ taken ended
    apply transition.hands_out sound
    rw [shows, output_shows]
    generalize (path.state (n + 1)).scheduler = s' at arm
    cases arm with
    | resumed active | rested active => exact absurd active inactive
    | stale => exact List.mem_singleton_self _

section Paths

variable (fair : Runtime.Fair path) (meets : path.Meets Runtime.Steady)
variable (threads : 0 < config.actorWorkerThreads)
include fair meets threads

/-- A stop event is handled. -/
theorem Runtime.Fair.tells (waits : Event.stop tag actor ∈ (path.state n).events) :
    ∃ k, n ≤ k ∧ 0 < (path.history k).countP (Obs.buries tag actor) := by
  obtain ⟨k, later, taken⟩ := fair.takes_events meets threads waits
  obtain ⟨_, _, silent⟩ | ⟨label, _, transition⟩ := runtime_path_cases path k
  · rw [silent] at taken
    cases taken
  · obtain ⟨i, called⟩ := transition.tells taken
    refine ⟨k + 1, Nat.le_succ_of_le later, ?_⟩
    refine List.countP_pos_iff.mpr ⟨.called i tag actor .onStop, ?_, ?_⟩
    · rw [path.history_succ]
      exact List.mem_append_right _ called
    · simp [Obs.buries]

end Paths

/-- **Every stopped instance is told.** On every fair path on which neither `on_fail` nor `on_stop`
panics, no instance is replaced in `actors` and no stopped instance comes back while its tag is
active again: an instance whose stop was accepted has at some time seen exactly one of `on_stop`
and `on_fail`, unless the event loop has ended. -/
theorem eventually_told (fair : Runtime.Fair path) (meets : path.Meets Runtime.KeepsInstances)
    (inTime : path.Meets Runtime.ReturnsInTime) (threads : 0 < config.actorWorkerThreads)
    (ended : actor ∈ retired tag (path.history n)) :
    ∃ k, n ≤ k ∧
      (Runtime.Ended path k ∨ (path.history k).countP (Obs.buries tag actor) = 1) := by
  have steady : path.Meets Runtime.Steady := fun m label taken => (meets m label taken).2
  by_contra never
  push Not at never
  have untold (m : Nat) (later : n ≤ m) :
      (path.history m).countP (Obs.buries tag actor) = 0 := by
    have most := (burial tag actor).run (meets.run m)
    have once := admitted_once (meets.run m) tag actor
    have other := (never m later).2
    omega
  have still (m : Nat) (later : n ≤ m) : actor ∈ retired tag (path.history m) :=
    retired_mono (path.history_mono later) ended
  have living (m : Nat) (later : n ≤ m) :=
    runtime_untold (meets.run m) (by simpa [Runtime.Ended] using (never m later).1) (still m later)
      (untold m later)
  have unstopped (m : Nat) (later : n ≤ m) : Event.stop tag actor ∉ (path.state m).events := by
    intro waits
    obtain ⟨k, after, told⟩ := fair.tells steady threads waits
    rw [untold k (later.trans after)] at told
    cases told
  obtain idle | ⟨token, mem, rfl, rfl, among⟩ := holds_of_census (living n (Nat.le_refl n)).1
  · have final := finality (inTime.run n) tag
    obtain ⟨active, bound⟩ := final.idle actor idle
    exact final.current actor active bound ended
  · -- The instance travels, and its return or its stop event comes to its end.
    obtain ⟨moving, stopped⟩ := place_of_travelling mem
    have away : token.place.inFlight = true := by
      cases place : token.place with
      | idle => exact absurd place moving
      | stopMailed => exact absurd (stopped place) (unstopped n (Nat.le_refl n))
      | spawning | failing | stopping =>
          rw [place] at among
          cases among
      | mailed | receiving | returning | returned => rfl
    obtain ⟨k, later, ok, back⟩ := fair.comes_back steady threads mem away
    obtain rfl : ok = true := by
      by_contra failed
      obtain rfl := Bool.not_eq_true _ ▸ failed
      have one := census_action_pos (P := (· = .returned false)) back rfl (by simp)
      have none := (living k later).2
      omega
    obtain ⟨l, last, received | gone⟩ := fair.receives back
    · have beyond := later.trans last
      exact unstopped (l + 1) (Nat.le_succ_of_le beyond)
        (runtime_dismisses inTime (still l beyond) received)
    · exact (never l (later.trans last)).1 gone

/-- The actor at `a` is stopped while it receives. -/
def goodbye : List Label :=
  [Label.call 0 (.spawn "a") 0] ++ turn (.spawn "a" ⟨0⟩) ++
  [Label.call 0 (.send "a" (.of (.other 7))) 0] ++ turn (.queue "a" (letter 1 7)) ++
  [Label.worker 0 .take, .call 0 (.stop "a") 0] ++ turn (.stop "a") ++
  [Label.worker 0 (.finish true), .worker 0 .advance, .worker 0 .advance] ++
  turn (.return "a" ⟨0⟩ true) ++
  [Label.worker 0 .take, .worker 0 (.finish true), .worker 0 .advance, .shutdown 0,
    .loop (.receive .shutdown true), .sendShutdown, .worker 0 .take, .finish]

/-- One worker, and the event loop goes on without actors. -/
def loneWorker : SchedulerConfig :=
  { SchedulerConfig.default with actorWorkerThreads := 1, eagerShutdownEnabled := false }

theorem goodbye_follows : (runtimeMachine loneWorker "app" "host" 0).Follows goodbye := by decide

set_option maxRecDepth 2000 in
theorem eventually_told_goodbye :
    ∃ k, 13 ≤ k ∧ (Runtime.Ended (Machine.restingPath goodbye_follows) k ∨
      ((Machine.restingPath goodbye_follows).history k).countP (Obs.buries "a" ⟨0⟩) = 1) := by
  have fair := Runtime.fair_of_done goodbye_follows (by decide) (by decide) (by decide)
  have keeps : (Machine.restingPath goodbye_follows).Meets Runtime.KeepsInstances :=
    Machine.restingPath_meets_of (by decide)
  have inTime : (Machine.restingPath goodbye_follows).Meets Runtime.ReturnsInTime :=
    Machine.restingPath_meets_of (by decide)
  exact eventually_told fair keeps inTime (by decide) (by decide)

end Uppercut
