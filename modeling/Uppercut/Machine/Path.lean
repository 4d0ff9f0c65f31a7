import Uppercut.Machine.Run

/-!
# Endless runs

A path is a run that does not end. At some times nothing happens. Weak fairness says that one of
some labels is taken when from some time on one of them could always be taken. What leads to
what along a path follows from fairness and from a rank that descends.
-/

universe u v w

/-- Whenever `P` holds, `Q` holds then or later. -/
def LeadsTo (P Q : Nat → Prop) : Prop := ∀ n, P n → ∃ k, n ≤ k ∧ Q k

namespace LeadsTo

variable {P Q R : Nat → Prop}

theorem of_imp (implies : ∀ n, P n → Q n) : LeadsTo P Q :=
  fun n now => ⟨n, Nat.le_refl n, implies n now⟩

theorem trans (first : LeadsTo P Q) (second : LeadsTo Q R) : LeadsTo P R := by
  intro n now
  obtain ⟨k, later, middle⟩ := first n now
  obtain ⟨l, last, done⟩ := second k middle
  exact ⟨l, later.trans last, done⟩

/-- A rank descends until `Q` holds. -/
theorem descend (rank : Nat → Nat)
    (next : ∀ n, P n → ∃ k, n ≤ k ∧ (Q k ∨ P k ∧ rank k < rank n)) : LeadsTo P Q := by
  intro n now
  induction size : rank n using Nat.strong_induction_on generalizing n with
  | _ r ih =>
      obtain ⟨k, later, done | ⟨still, less⟩⟩ := next n now
      · exact ⟨k, later, done⟩
      · obtain ⟨l, last, done⟩ := ih (rank k) (size ▸ less) k still rfl
        exact ⟨l, later.trans last, done⟩

/-- What leads to itself, later, by way of `Q`, leads to `Q` again and again. -/
theorem again {n : Nat} (turn : ∀ m, n ≤ m → P m → ∃ k, m ≤ k ∧ Q k ∧ ∃ l, k < l ∧ P l)
    (now : P n) (bound : Nat) : ∃ k, bound ≤ k ∧ Q k := by
  have starts (m : Nat) : ∃ k, n + m ≤ k ∧ P k := by
    induction m with
    | zero => exact ⟨n, Nat.le_refl n, now⟩
    | succ m ih =>
        obtain ⟨k, later, here⟩ := ih
        obtain ⟨l, last, _, r, after, again⟩ := turn k (by omega) here
        exact ⟨r, by omega, again⟩
  obtain ⟨k, later, here⟩ := starts bound
  obtain ⟨l, last, done, _⟩ := turn k (by omega) here
  exact ⟨l, by omega, done⟩

/-- What holds from some time on for each index holds from some time on for all of them. -/
theorem forall_lt {Q : Nat → Nat → Prop} (stays : ∀ i n, Q i n → Q i (n + 1))
    (each : ∀ i, LeadsTo P (Q i)) (bound : Nat) : LeadsTo P fun n => ∀ i < bound, Q i n := by
  have lasts (i : Nat) {n k : Nat} (later : n ≤ k) (now : Q i n) : Q i k :=
    Nat.le_induction now (fun k _ => stays i k) k later
  induction bound with
  | zero => exact of_imp fun _ _ i inside => absurd inside (Nat.not_lt_zero i)
  | succ bound ih =>
      intro n now
      obtain ⟨k, later, below⟩ := ih n now
      obtain ⟨l, after, last⟩ := each bound n now
      refine ⟨max k l, later.trans (Nat.le_max_left k l), ?_⟩
      intro i inside
      obtain less | rfl := Nat.lt_succ_iff_lt_or_eq.mp inside
      · exact lasts i (Nat.le_max_left k l) (below i less)
      · exact lasts i (Nat.le_max_right k l) last

/-- What stays until `Q` holds is there until the first time when `Q` holds. -/
theorem exists_first {n : Nat} (now : P n) (stays : ∀ m, P m → ¬ Q m → P (m + 1) ∨ Q (m + 1))
    (leaves : ∃ k, n ≤ k ∧ Q k) : ∃ k, n ≤ k ∧ Q k ∧ ∀ m, n ≤ m → m < k → P m := by
  classical
  obtain ⟨later, done⟩ := Nat.find_spec leaves
  have before (m : Nat) (after : n ≤ m) (early : m < Nat.find leaves) : ¬ Q m :=
    fun already => Nat.find_min leaves early ⟨after, already⟩
  refine ⟨Nat.find leaves, later, done, fun m after early => ?_⟩
  induction m, after using Nat.le_induction with
  | base => exact now
  | succ m after ih =>
      have soon := (Nat.lt_succ_self m).trans early
      exact (stays m (ih soon) (before m after soon)).resolve_right
        (before (m + 1) (Nat.le_succ_of_le after) early)

end LeadsTo

namespace Machine

variable {σ : Type u} {α : Type v} {ω : Type w}

/-- A run that does not end. -/
structure Path (m : Machine σ α ω) where
  state : Nat → σ
  label : Nat → Option α
  seen : Nat → List ω
  start : state 0 = m.start
  moves : ∀ {n a}, label n = some a → m.step (state n) a = some (state (n + 1), seen n)
  waits : ∀ {n}, label n = none → state (n + 1) = state n ∧ seen n = []

namespace Path

variable {m : Machine σ α ω} {path : m.Path} {allowed : σ → List ω → α → Prop} {n k : Nat}

def history (path : m.Path) (n : Nat) : List ω := (List.range n).flatMap path.seen

@[simp] theorem history_succ (n : Nat) :
    path.history (n + 1) = path.history n ++ path.seen n := by
  simp [history, List.range_succ]

theorem history_mono (later : n ≤ k) : path.history n <+: path.history k := by
  induction k, later using Nat.le_induction with
  | base => exact List.prefix_refl _
  | succ k _ ih =>
      rw [history_succ]
      exact ih.trans (List.prefix_append _ _)

/-- All steps of the path meet a side condition. -/
def Meets (path : m.Path) (allowed : σ → List ω → α → Prop) : Prop :=
  ∀ n a, path.label n = some a → allowed (path.state n) (path.history n) a

/-- Each beginning of a path is a run. -/
theorem Meets.run (meets : path.Meets allowed) (n : Nat) :
    m.Run allowed (path.state n) (path.history n) := by
  induction n with
  | zero => exact path.start ▸ .start
  | succ n ih =>
      rw [history_succ]
      cases label : path.label n with
      | none =>
          obtain ⟨same, silent⟩ := path.waits label
          rw [same, silent, List.append_nil]
          exact ih
      | some a => exact .step ih (meets n a label) (path.moves label)

/-- One of the labels `A` can be taken. -/
def Enabled (path : m.Path) (A : α → Prop) (n : Nat) : Prop :=
  ∃ a, A a ∧ (m.step (path.state n) a).isSome = true

/-- One of the labels `A` is taken. -/
def Takes (path : m.Path) (A : α → Prop) (n : Nat) : Prop := ∃ a, A a ∧ path.label n = some a

/-- If one of the labels can be taken from some time on, then one of them is taken. -/
def WeaklyFair (path : m.Path) (A : α → Prop) : Prop :=
  ∀ n, (∀ k, n ≤ k → path.Enabled A k) → ∃ k, n ≤ k ∧ path.Takes A k

/-- What stays until a fair label is taken, and lets it be taken, is there when it is taken. -/
theorem WeaklyFair.until {A : α → Prop} {P Q : Nat → Prop} (fair : path.WeaklyFair A)
    (stays : ∀ n, P n → ¬ path.Takes A n → P (n + 1) ∨ Q (n + 1))
    (enabled : ∀ n, P n → path.Enabled A n) :
    LeadsTo P fun n => P n ∧ path.Takes A n ∨ Q n := by
  intro n now
  by_contra never
  push Not at never
  have holds (k : Nat) (later : n ≤ k) : P k := by
    induction k, later using Nat.le_induction with
    | base => exact now
    | succ k later ih =>
        have idle : ¬ path.Takes A k := (never k later).1 ih
        exact (stays k ih idle).resolve_right (never (k + 1) (Nat.le_succ_of_le later)).2
  obtain ⟨k, later, taken⟩ := fair n fun k later => enabled k (holds k later)
  exact (never k later).1 (holds k later) taken

/-- What stays until a fair label is taken, and lets it be taken, leads to what the label does. -/
theorem WeaklyFair.leadsTo {A : α → Prop} {P Q : Nat → Prop} (fair : path.WeaklyFair A)
    (stays : ∀ n, P n → ¬ path.Takes A n → P (n + 1) ∨ Q (n + 1))
    (enabled : ∀ n, P n → path.Enabled A n)
    (acts : ∀ n, P n → path.Takes A n → Q (n + 1)) : LeadsTo P Q := by
  intro n now
  by_contra never
  have none (k : Nat) (later : n ≤ k) : ¬ Q k := fun done => never ⟨k, later, done⟩
  have holds (k : Nat) (later : n ≤ k) : P k := by
    induction k, later using Nat.le_induction with
    | base => exact now
    | succ k later ih =>
        have after := none (k + 1) (Nat.le_succ_of_le later)
        have idle : ¬ path.Takes A k := fun taken => after (acts k ih taken)
        exact (stays k ih idle).resolve_right after
  obtain ⟨k, later, taken⟩ := fair n fun k later => enabled k (holds k later)
  exact none (k + 1) (Nat.le_succ_of_le later) (acts k (holds k later) taken)

end Path

/-! ## Paths that come to rest -/

section Rest

variable (m : Machine σ α ω) (labels : List α)

/-- The state after the first `n` labels. -/
def after (n : Nat) : σ :=
  (labels.take n).foldl (fun s a => ((m.step s a).map Prod.fst).getD s) m.start

/-- The labels can be taken one after the other. -/
def Follows : Prop :=
  ∀ n < labels.length, (labels[n]?.all fun a => (m.step (m.after labels n) a).isSome) = true

instance : Decidable (m.Follows labels) :=
  inferInstanceAs (Decidable (∀ n < labels.length, _ = true))

variable {m labels}

theorem after_succ {n : Nat} {a : α} (known : labels[n]? = some a) :
    m.after labels (n + 1) = ((m.step (m.after labels n) a).map Prod.fst).getD
      (m.after labels n) := by
  rw [after, List.take_add_one, known, List.foldl_append]
  rfl

theorem after_of_le {n : Nat} (done : labels.length ≤ n) :
    m.after labels n = m.after labels labels.length := by
  rw [after, List.take_of_length_le done, after, List.take_length]

/-- Take the labels one after the other, and then nothing any more. -/
def restingPath (follows : m.Follows labels) : m.Path where
  state := m.after labels
  label n := labels[n]?
  seen n := (labels[n]?.bind fun a => (m.step (m.after labels n) a).map Prod.snd).getD []
  start := rfl
  moves := by
    intro n a known
    obtain ⟨inside, _⟩ := List.getElem?_eq_some_iff.mp known
    have taken := follows n inside
    rw [known, Option.all_some] at taken
    obtain ⟨r, taken⟩ := Option.isSome_iff_exists.mp taken
    rw [after_succ known, known, taken]
    simp [taken]
  waits := by
    intro n last
    have past := List.getElem?_eq_none_iff.mp last
    refine ⟨?_, by rw [last]; rfl⟩
    rw [after_of_le past, after_of_le (Nat.le_succ_of_le past)]

/-- A path that comes to rest where a label cannot be taken is fair to it. -/
theorem restingPath_fair {follows : m.Follows labels} {A : α → Prop}
    (ends : ∀ a, A a → m.step (m.after labels labels.length) a = none) :
    (restingPath follows).WeaklyFair A := by
  intro n always
  obtain ⟨a, own, taken⟩ := always (max n labels.length) (Nat.le_max_left _ _)
  have rest : (restingPath follows).state (max n labels.length) = m.after labels labels.length :=
    after_of_le (Nat.le_max_right _ _)
  rw [rest, ends a own] at taken
  cases taken

theorem restingPath_meets {follows : m.Follows labels} {allowed : σ → List ω → α → Prop}
    (each : ∀ a ∈ labels, ∀ s h, allowed s h a) : (restingPath follows).Meets allowed :=
  fun _ a known => each a (List.mem_of_getElem? known) _ _

/-- Whether the labels meet a side condition can be checked one after the other. -/
theorem restingPath_meets_of {follows : m.Follows labels} {allowed : σ → List ω → α → Prop}
    [∀ s h a, Decidable (allowed s h a)]
    (each : ∀ n < labels.length, (labels[n]?.all fun a =>
      decide (allowed (m.after labels n) ((restingPath follows).history n) a)) = true) :
    (restingPath follows).Meets allowed := by
  intro n a known
  have here : labels[n]? = some a := known
  have checked := each n (List.getElem?_eq_some_iff.mp here).1
  rw [here, Option.all_some, decide_eq_true_eq] at checked
  exact checked

/-- Nothing is seen after the last label. -/
theorem history_restingPath (follows : m.Follows labels) (n : Nat) :
    (restingPath follows).history n <+: (restingPath follows).history labels.length := by
  obtain less | more := Nat.le_total n labels.length
  · exact Path.history_mono less
  · induction n, more using Nat.le_induction with
    | base => exact List.prefix_refl _
    | succ n past ih =>
        have last : (restingPath follows).label n = none := List.getElem?_eq_none_iff.mpr past
        rw [Path.history_succ, ((restingPath follows).waits last).2, List.append_nil]
        exact ih

end Rest

end Machine
