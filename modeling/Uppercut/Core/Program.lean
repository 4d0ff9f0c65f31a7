import Uppercut.Core.Order

/-!
# Actors that run a program

The runtime does not know what actors do. Here each instance runs a program, which turns its
fields and an envelope into its next fields and the calls that `receive` makes, one after the
other. `on_fail` and `on_stop` do nothing, as they are by default. So a run is determined by the
threads, by the order in which the loops take their steps and by what `receive` reads of its
surroundings.
-/

namespace Uppercut

/-- The fields of a new instance, and `receive`. There is no result when it panics; it has made no
calls then. -/
structure Program (σ ε : Type) where
  start : σ
  receive : Tag → σ → ε → Envelope → Option (σ × List Call)

namespace Program

variable {σ ε : Type}

/-- The runtime with the fields of the instances. `agenda` has the calls that the callback of a
worker has not made yet; there is none when `receive` panics. -/
structure State (σ : Type) where
  runtime : Runtime
  fields : Actor → σ
  agenda : Nat → Option (List Call)

/-- The worker begins a callback. -/
def begin (prog : Program σ ε) (s : State σ) (index : Nat) (around : ε) (runtime : Runtime)
    (seen : List Obs) : State σ :=
  match seen.findSome? Obs.receives? with
  | none => ⟨runtime, s.fields, Function.update s.agenda index (some [])⟩
  | some (tag, actor, envelope) =>
      match prog.receive tag (s.fields actor) around envelope with
      | none => ⟨runtime, s.fields, Function.update s.agenda index none⟩
      | some (fields, calls) =>
          ⟨runtime, Function.update s.fields actor fields,
            Function.update s.agenda index (some calls)⟩

/-- A callback returns when it has made its calls, and panics when it has none. -/
def finishes : Option (List Call) → Bool → Bool
  | some [], ok => ok
  | some (_ :: _), _ => false
  | none, ok => !ok

/-- A step of the runtime that goes with the programs. -/
def step (prog : Program σ ε) (s : State σ) :
    Label × ε → Option (State σ × List Obs)
  | (label, around) =>
      match s.runtime.step label with
      | none => none
      | some (runtime, seen) =>
          match label with
          | .worker index .take => some (prog.begin s index around runtime seen, seen)
          | .worker index (.call call _) =>
              match s.agenda index with
              | some (first :: rest) =>
                  if call = first then
                    some (⟨runtime, s.fields, Function.update s.agenda index (some rest)⟩, seen)
                  else none
              | _ => none
          | .worker index (.finish ok) =>
              if finishes (s.agenda index) ok then
                some (⟨runtime, s.fields, Function.update s.agenda index (some [])⟩, seen)
              else none
          | _ => some (⟨runtime, s.fields, s.agenda⟩, seen)

def machine (prog : Program σ ε) (config : SchedulerConfig) (name host : String) (start : Nat) :
    Machine (State σ) (Label × ε) Obs where
  start := ⟨.start config name host start, fun _ => prog.start, fun _ => some []⟩
  step := prog.step

section Step

variable {prog : Program σ ε} {s t : State σ} {label : Label} {around : ε} {seen : List Obs}

/-- What a step does to the fields and to what is left to do. -/
inductive Move (prog : Program σ ε) (s : State σ) (around : ε) (label : Label) (seen : List Obs) :
    (Actor → σ) → (Nat → Option (List Call)) → Prop where
  | receives {index i tag actor envelope fields calls} (takes : label = .worker index .take)
      (called : Obs.called i tag actor (.receive envelope) ∈ seen)
      (result : prog.receive tag (s.fields actor) around envelope = some (fields, calls)) :
      Move prog s around label seen (Function.update s.fields actor fields)
        (Function.update s.agenda index (some calls))
  | panics {index} (takes : label = .worker index .take) :
      Move prog s around label seen s.fields (Function.update s.agenda index none)
  | calls {index call now rest} (makes : label = .worker index (.call call now))
      (next : s.agenda index = some (call :: rest)) :
      Move prog s around label seen s.fields (Function.update s.agenda index (some rest))
  | rests {index} (quiet : ∀ i call now, label ≠ .worker i (.call call now)) :
      Move prog s around label seen s.fields (Function.update s.agenda index (some []))
  | other (quiet : ∀ i call now, label ≠ .worker i (.call call now)) :
      Move prog s around label seen s.fields s.agenda

theorem begin_move {index : Nat} {runtime : Runtime} (takes : label = .worker index .take) :
    (prog.begin s index around runtime seen).runtime = runtime ∧
      Move prog s around label seen (prog.begin s index around runtime seen).fields
        (prog.begin s index around runtime seen).agenda := by
  have quiet (i : Nat) (call : Call) (now : Nat) : label ≠ .worker i (.call call now) := by
    rw [takes]
    exact nofun
  rw [begin]
  split
  case h_1 => exact ⟨rfl, .rests quiet⟩
  case h_2 tag actor envelope found =>
    obtain ⟨x, mem, known⟩ := List.exists_of_findSome?_eq_some found
    split
    case h_1 => exact ⟨rfl, .panics takes⟩
    case h_2 fields calls result =>
      refine ⟨rfl, ?_⟩
      cases x with
      | called i tag' actor' callback =>
          cases callback with
          | receive envelope' =>
              cases known
              exact .receives takes mem result
          | onFail | onStop => cases known
      | _ => cases known

theorem step_move (taken : prog.step s (label, around) = some (t, seen)) :
    s.runtime.step label = some (t.runtime, seen) ∧
      Move prog s around label seen t.fields t.agenda := by
  rw [step] at taken
  split at taken
  case h_1 => cases taken
  case h_2 runtime seen' went =>
    split at taken
    case h_1 index =>
      cases taken
      obtain ⟨same, move⟩ := @begin_move σ ε prog s _ around seen index runtime rfl
      rw [same]
      exact ⟨went, move⟩
    case h_2 index call now =>
      split at taken
      case h_1 first rest next =>
        split at taken
        case isTrue own =>
          cases taken
          exact ⟨went, .calls rfl (own ▸ next)⟩
        case isFalse => cases taken
      case h_2 => cases taken
    case h_3 =>
      split at taken
      case isTrue =>
        cases taken
        exact ⟨went, .rests nofun⟩
      case isFalse => cases taken
    case h_4 other _ =>
      cases taken
      exact ⟨went, .other other⟩

end Step

variable {prog : Program σ ε} {config : SchedulerConfig} {name host : String} {start : Nat}
variable {allowed : State σ → List Obs → Label × ε → Prop} {s : State σ} {h : List Obs}

/-- A run with programs is a run of the runtime. -/
theorem runtime_run (run : (prog.machine config name host start).Run allowed s h) :
    (runtimeMachine config name host start).Reached s.runtime h := by
  induction run with
  | start => exact .start
  | @step s t h label seen before _ taken ih => exact .step ih trivial (step_move taken).1

end Program

/-! ## Where instances come from -/

/-- The instance that is built, and its tag. -/
def Obs.born? : Obs → Option (Tag × Actor)
  | .sent _ (.spawn tag actor) => some (tag, actor)
  | _ => none

/-- The instances that were built, and their tags. -/
def born (h : List Obs) : List (Tag × Actor) := h.filterMap Obs.born?

theorem born_append (h seen : List Obs) : born (h ++ seen) = born h ++ born seen :=
  List.filterMap_append ..

/-- Only a call gives an envelope to a tag or builds an instance. -/
theorem Transition.builds {s t : Runtime} {label : Label} {seen : List Obs}
    (transition : Transition s label t seen) :
    (born seen = [] ∧ ∀ tag, seen.flatMap (Obs.givenTo tag) = []) ∨
      ∃ sender action, seen = [.sent sender action] ∧ s.Calls label sender action ∧
        t.fresh = s.fresh + 1 := by
  cases transition with
  | posted calls => exact .inr ⟨_, _, rfl, calls, rfl⟩
  | @recorded _ call => cases call <;> exact .inl ⟨rfl, fun _ => rfl⟩
  | worker _ move => cases move <;> exact .inl ⟨rfl, fun _ => rfl⟩
  | loop _ taken | crashed _ taken =>
      have plain : ∀ x ∈ seen, x.born? = none ∧ ∀ tag, x.givenTo tag = [] := by
        intro x mem
        have shown := (LoopState.step_move taken).shown x mem
        cases x <;> first | exact ⟨rfl, fun _ => rfl⟩ | exact absurd rfl shown
      refine .inl ⟨List.filterMap_eq_nil_iff.mpr fun x mem => (plain x mem).1, fun tag => ?_⟩
      exact List.flatMap_eq_nil_iff.mpr fun x mem => (plain x mem).2 tag
  | unposted | dropped | announced | unannounced | drained | finished =>
      exact .inl ⟨rfl, fun _ => rfl⟩

theorem mem_born_of_bears {h : List Obs} {tag : Tag} {actor : Actor}
    (built : 0 < h.countP (Obs.bears tag actor)) : (tag, actor) ∈ born h := by
  obtain ⟨x, mem, bears⟩ := List.countP_pos_iff.mp built
  refine List.mem_filterMap.mpr ⟨x, mem, ?_⟩
  cases x with
  | sent sender action =>
      cases action with
      | spawn tag' actor' =>
          simp only [Obs.bears, Bool.and_eq_true, decide_eq_true_eq] at bears
          rw [Obs.born?, bears.1, bears.2]
      | _ => cases bears
  | _ => cases bears

/-- An instance that receives was built for its tag. -/
theorem born_of_called {config : SchedulerConfig} {name host : String} {start : Nat} {s : Runtime}
    {h : List Obs} {allowed : Runtime → List Obs → Label → Prop}
    (run : (runtimeMachine config name host start).Run allowed s h) {i : Nat} {tag : Tag}
    {actor : Actor} {envelope : Envelope}
    (called : Obs.called i tag actor (.receive envelope) ∈ h) : (tag, actor) ∈ born h := by
  induction run with
  | start => cases called
  | @step s t h label seen before met taken ih =>
      obtain old | new := List.mem_append.mp called
      · rw [born_append]
        exact List.mem_append_left _ (ih old)
      · have after := Machine.Run.step before met taken
        obtain ⟨w, known, stage⟩ := (Runtime.step_transition taken).entered new
        have placed := (admission tag actor).run after
        have accepted := (acceptance tag actor).run after
        have held := Tally.weight_le_total
          (fun w : Worker => weight tag (one actor Place.admitted) w.stage.token?)
          (List.mem_of_getElem? known)
        have own : weight tag (one actor Place.admitted) w.stage.token? = 1 := by
          simp [stage, Stage.token?, Place.admitted]
        simp only [own] at held
        simp only [census] at placed
        apply mem_born_of_bears
        omega

end Uppercut
