import Mathlib

/-!
# Runs of machines that report what they do

A machine takes labelled steps. The label resolves every choice of the
environment, so a step is a partial function and an interleaving is a sequence
of labels. Each step reports what an observer sees of it; the history of a run
is the concatenation of these reports.

`Run allowed` collects the states and histories reached by steps that all meet a
side condition. The condition may look at the state, at the history so far and at
the label, so one relation serves both the unconditional runs and the runs on
which a defect of the modelled program is kept out.
-/

universe u v w

/-- A deterministic labelled machine with observations. -/
structure Machine (σ : Type u) (α : Type v) (ω : Type w) where
  start : σ
  step : σ → α → Option (σ × List ω)

namespace Machine

variable {σ τ : Type u} {α β : Type v} {ω ν : Type w}
variable {m : Machine σ α ω} {n : Machine τ β ν}
variable {allowed allowed' : σ → List ω → α → Prop} {s t : σ} {h k : List ω}

/-- The state `s` is reached with history `h` by steps that are all `allowed`. -/
inductive Run (m : Machine σ α ω) (allowed : σ → List ω → α → Prop) :
    σ → List ω → Prop where
  | start : Run m allowed m.start []
  | step {s t h label seen} : Run m allowed s h → allowed s h label →
      m.step s label = some (t, seen) → Run m allowed t (h ++ seen)

/-- Every run of the machine, whatever its steps are. -/
abbrev Reached (m : Machine σ α ω) : σ → List ω → Prop :=
  m.Run fun _ _ _ => True

namespace Run

/-- A side condition may be weakened, also by what is known of the run so far. -/
theorem mono (run : m.Run allowed s h)
    (weaken : ∀ {s h label}, m.Run allowed s h → allowed s h label → allowed' s h label) :
    m.Run allowed' s h := by
  induction run with
  | start => exact .start
  | step before met taken ih => exact .step ih (weaken before met) taken

theorem reached (run : m.Run allowed s h) : m.Reached s h :=
  run.mono fun _ _ => trivial

/-- A map that sends every step of one machine to a step of another, or to no
step at all when nothing visible happens, sends runs to runs. -/
theorem simulate {allowed' : τ → List ν → β → Prop} (view : σ → τ) (seenAs : ω → Option ν)
    (start : view m.start = n.start)
    (step : ∀ {s t h label seen}, m.Run allowed s h → allowed s h label →
      m.step s label = some (t, seen) →
      (view t = view s ∧ seen.filterMap seenAs = []) ∨
        ∃ label', allowed' (view s) (h.filterMap seenAs) label' ∧
          n.step (view s) label' = some (view t, seen.filterMap seenAs))
    (run : m.Run allowed s h) : n.Run allowed' (view s) (h.filterMap seenAs) := by
  induction run with
  | start => exact start ▸ .start
  | step before met taken ih =>
      obtain ⟨same, silent⟩ | ⟨label', met', taken'⟩ := step before met taken
      · simpa [same, silent] using ih
      · simpa using Run.step ih met' taken'

end Run

/-- The machine that shows the label of each step, too. -/
def traced (m : Machine σ α ω) : Machine σ α (α × List ω) where
  start := m.start
  step s label := (m.step s label).map fun (t, seen) => (t, [(label, seen)])

theorem traced_step {label : α} {line : List (α × List ω)}
    (taken : m.traced.step s label = some (t, line)) :
    ∃ seen, m.step s label = some (t, seen) ∧ line = [(label, seen)] := by
  obtain ⟨⟨t, seen⟩, step, same⟩ := Option.map_eq_some_iff.mp taken
  cases same
  exact ⟨seen, step, rfl⟩

/-- Leaving out the labels gives a run again. -/
theorem Run.untrace {k : List (α × List ω)} (run : m.traced.Reached s k) :
    m.Reached s (k.flatMap Prod.snd) := by
  induction run with
  | start => exact .start
  | step before _ taken ih =>
      obtain ⟨seen, step, rfl⟩ := traced_step taken
      rw [List.flatMap_append, List.flatMap_singleton]
      exact .step ih trivial step

section Replay

variable [∀ s h label, Decidable (allowed s h label)]

/-- Follow a given sequence of labels, checking the side condition at each step. -/
def replayFrom (m : Machine σ α ω) (allowed : σ → List ω → α → Prop)
    [∀ s h label, Decidable (allowed s h label)] :
    List α → σ → List ω → Option (σ × List ω)
  | [], s, h => some (s, h)
  | label :: labels, s, h =>
      if allowed s h label then
        match m.step s label with
        | none => none
        | some (t, seen) => replayFrom m allowed labels t (h ++ seen)
      else none

/-- Follow a sequence of labels from the start. -/
def replay (m : Machine σ α ω) (allowed : σ → List ω → α → Prop)
    [∀ s h label, Decidable (allowed s h label)] (labels : List α) : Option (σ × List ω) :=
  m.replayFrom allowed labels m.start []

theorem run_of_replayFrom {labels : List α} (run : m.Run allowed s h)
    (followed : m.replayFrom allowed labels s h = some (t, k)) : m.Run allowed t k := by
  induction labels generalizing s h with
  | nil =>
      cases followed
      exact run
  | cons label labels ih =>
      simp only [replayFrom] at followed
      split at followed
      case isFalse => cases followed
      case isTrue met =>
        split at followed
        case h_1 => cases followed
        case h_2 u seen taken => exact ih (run.step met taken) followed

/-- A sequence of labels that can be followed is a run. -/
theorem run_of_replay (labels : List α) (followed : m.replay allowed labels = some (t, k)) :
    m.Run allowed t k :=
  run_of_replayFrom .start followed

/-- The form used on concrete inputs: the end of the run is computed. -/
theorem run_replay (m : Machine σ α ω) (allowed : σ → List ω → α → Prop)
    [∀ s h label, Decidable (allowed s h label)] (labels : List α)
    (followed : (m.replay allowed labels).isSome) :
    m.Run allowed ((m.replay allowed labels).get followed).1
      ((m.replay allowed labels).get followed).2 :=
  run_of_replay labels (Option.some_get followed).symm

end Replay

end Machine
