import Mathlib

/-!
# Properties of histories

Two ways to read a finite history from its past to its present. `Always P` says
that every observation stands in the relation `P` to what was observed before it.
`gather f` collects what each observation contributes, again in view of its past.
Both are computed one observation at a time, which is how a run extends them.
-/

universe u v

namespace History

variable {ω : Type u} {β : Type v} {P Q : List ω → ω → Prop} {f : List ω → ω → List β}

/-- Every observation of `later` satisfies `P` relative to all that precedes it,
where `before` was observed first. -/
def AlwaysFrom (P : List ω → ω → Prop) (before later : List ω) : Prop :=
  ∀ front x back, later = front ++ x :: back → P (before ++ front) x

/-- Every observation satisfies `P` relative to the observations before it. -/
def Always (P : List ω → ω → Prop) (history : List ω) : Prop :=
  ∀ front x back, history = front ++ x :: back → P front x

@[simp] theorem alwaysFrom_nil (before : List ω) : AlwaysFrom P before [] := by
  intro front x back split
  simp at split

@[simp] theorem alwaysFrom_cons (before later : List ω) (x : ω) :
    AlwaysFrom P before (x :: later) ↔ P before x ∧ AlwaysFrom P (before ++ [x]) later := by
  constructor
  · intro always
    refine ⟨by simpa using always [] x later rfl, ?_⟩
    intro front y back split
    simpa using always (x :: front) y back (by simp [split])
  · rintro ⟨first, rest⟩ front y back split
    cases front with
    | nil =>
        cases split
        simpa using first
    | cons z front =>
        simp only [List.cons_append, List.cons.injEq] at split
        obtain ⟨rfl, split⟩ := split
        simpa using rest front y back split

@[simp] theorem always_nil : Always P [] := by
  intro front x back split
  simp at split

/-- A history is extended by checking the new observations against their past. -/
@[simp] theorem always_append (history later : List ω) :
    Always P (history ++ later) ↔ Always P history ∧ AlwaysFrom P history later := by
  constructor
  · intro always
    constructor
    · rintro front x back rfl
      exact always front x (back ++ later) (by simp)
    · rintro front x back rfl
      exact always (history ++ front) x back (by simp)
  · rintro ⟨old, new⟩ front x back split
    obtain ⟨a, ha, hb⟩ | ⟨a, ha, hb⟩ := List.append_eq_append_iff.mp split
    · rw [ha]
      exact new a x back hb
    · cases a with
      | nil =>
          simp only [List.nil_append] at hb
          simpa [ha] using new [] x back (by simpa using hb.symm)
      | cons y a =>
          simp only [List.cons_append, List.cons.injEq] at hb
          obtain ⟨rfl, rfl⟩ := hb
          exact old front x a ha

theorem Always.mono {history : List ω} (always : Always P history)
    (weaken : ∀ before x, P before x → Q before x) : Always Q history :=
  fun front x back split => weaken front x (always front x back split)

/-- What the observations of `later` contribute, given that `before` was observed. -/
def gatherFrom (f : List ω → ω → List β) : List ω → List ω → List β
  | _, [] => []
  | before, x :: later => f before x ++ gatherFrom f (before ++ [x]) later

/-- What the observations of a history contribute. -/
def gather (f : List ω → ω → List β) (history : List ω) : List β :=
  gatherFrom f [] history

@[simp] theorem gatherFrom_nil (before : List ω) : gatherFrom f before [] = [] := rfl

@[simp] theorem gatherFrom_cons (before later : List ω) (x : ω) :
    gatherFrom f before (x :: later) = f before x ++ gatherFrom f (before ++ [x]) later := rfl

theorem gatherFrom_append (before first second : List ω) :
    gatherFrom f before (first ++ second) =
      gatherFrom f before first ++ gatherFrom f (before ++ first) second := by
  induction first generalizing before with
  | nil => simp
  | cons x first ih => simp [ih]

@[simp] theorem gather_nil : gather f [] = [] := rfl

@[simp] theorem gather_append (history later : List ω) :
    gather f (history ++ later) = gather f history ++ gatherFrom f history later := by
  simpa [gather] using gatherFrom_append [] history later

theorem mem_gather {history : List ω} {b : β} :
    b ∈ gather f history ↔
      ∃ front x back, history = front ++ x :: back ∧ b ∈ f front x := by
  induction history using List.reverseRecOn with
  | nil => simp
  | append_singleton history x ih =>
      simp only [gather_append, gatherFrom_cons, gatherFrom_nil, List.append_nil,
        List.mem_append, ih]
      constructor
      · rintro (⟨front, y, back, rfl, mem⟩ | mem)
        · exact ⟨front, y, back ++ [x], by simp, mem⟩
        · exact ⟨history, x, [], rfl, mem⟩
      · rintro ⟨front, y, back, split, mem⟩
        obtain rfl | ⟨back, z, rfl⟩ := List.eq_nil_or_concat back
        · obtain ⟨rfl, rfl⟩ := List.append_singleton_inj.mp split
          exact .inr mem
        · refine .inl ⟨front, y, back, ?_, mem⟩
          have : history ++ [x] = (front ++ y :: back) ++ [z] := by simpa using split
          exact (List.append_singleton_inj.mp this).1

end History
