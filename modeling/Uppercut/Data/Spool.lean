import Mathlib
import Uppercut.Machine.History

/-!
# Spools: items that several owners set aside and hand on in batches

Each item is put aside by its owner. When an owner flushes, everything it has put aside leaves
as one batch. No item is lost or doubled, and each owner's items keep their order. Items of
different owners keep theirs as far as they are flushed in turn.
-/

universe u v

/-- What happens to a spool. -/
inductive Spool (κ : Type u) (ρ : Type v) where
  | put (item : ρ)
  | flush (owner : κ)

namespace Spool

variable {κ : Type u} {ρ : Type v} [DecidableEq κ] {owner : ρ → κ}

/-- What is put aside after one more step. -/
def next (owner : ρ → κ) (waiting : List ρ) : Spool κ ρ → List ρ
  | .put item => waiting ++ [item]
  | .flush o => waiting.filter fun item => owner item ≠ o

/-- The items that were put aside and not flushed. -/
def held (owner : ρ → κ) (steps : List (Spool κ ρ)) : List ρ := steps.foldl (next owner) []

/-- The batch that leaves in a step. -/
def batch (owner : ρ → κ) (before : List (Spool κ ρ)) : Spool κ ρ → List (List ρ)
  | .put _ => []
  | .flush o => [(held owner before).filter fun item => owner item = o]

/-- The batches that have left. -/
def batches (owner : ρ → κ) (steps : List (Spool κ ρ)) : List (List ρ) :=
  History.gather (batch owner) steps

/-- The item that is put aside in a step. -/
def item? : Spool κ ρ → Option ρ
  | .put item => some item
  | .flush _ => none

/-- The items that were ever put aside. -/
def items (steps : List (Spool κ ρ)) : List ρ := steps.filterMap item?

section Append

variable (owner) (steps : List (Spool κ ρ)) (item : ρ) (o : κ)

@[simp] theorem held_nil : held owner ([] : List (Spool κ ρ)) = [] := rfl

@[simp] theorem held_put : held owner (steps ++ [.put item]) = held owner steps ++ [item] := by
  simp [held, next]

@[simp] theorem held_flush :
    held owner (steps ++ [.flush o]) = (held owner steps).filter fun item => owner item ≠ o := by
  simp [held, next]

@[simp] theorem batches_nil : batches owner ([] : List (Spool κ ρ)) = [] := rfl

@[simp] theorem batches_put : batches owner (steps ++ [.put item]) = batches owner steps := by
  simp [batches, batch]

@[simp] theorem batches_flush : batches owner (steps ++ [.flush o]) =
    batches owner steps ++ [(held owner steps).filter fun item => owner item = o] := by
  simp [batches, batch]

omit [DecidableEq κ] in
@[simp] theorem items_nil : items ([] : List (Spool κ ρ)) = [] := rfl

omit [DecidableEq κ] in
@[simp] theorem items_put : items (steps ++ [.put item]) = items steps ++ [item] := by
  simp [items, item?]

omit [DecidableEq κ] in
@[simp] theorem items_flush : items (steps ++ [.flush o]) = items steps := by
  simp [items, item?]

/-- What is put aside does not leave. -/
theorem batches_puts {more : List (Spool κ ρ)} (puts : ∀ step ∈ more, ∃ item, step = .put item) :
    batches owner (steps ++ more) = batches owner steps := by
  induction more generalizing steps with
  | nil => rw [List.append_nil]
  | cons step more ih =>
      obtain ⟨item, rfl⟩ := puts step List.mem_cons_self
      rw [List.append_cons, ih _ fun x mem => puts x (List.mem_cons_of_mem _ mem), batches_put]

end Append

/-- A step of another owner. -/
def Spares (owner : ρ → κ) (o : κ) : Spool κ ρ → Prop
  | .put item => owner item ≠ o
  | .flush other => other ≠ o

/-- What others do leaves an owner's items alone. -/
theorem held_spared {o : κ} {steps more : List (Spool κ ρ)}
    (spared : ∀ step ∈ more, Spares owner o step) :
    (held owner (steps ++ more)).filter (fun item => owner item = o) =
      (held owner steps).filter fun item => owner item = o := by
  induction more generalizing steps with
  | nil => rw [List.append_nil]
  | cons step more ih =>
      rw [List.append_cons, ih fun x mem => spared x (List.mem_cons_of_mem _ mem)]
      have spares := spared step List.mem_cons_self
      cases step with
      | put item =>
          have other : owner item ≠ o := spares
          simp [List.filter_append, other]
      | flush other =>
          have ne : o ≠ other := Ne.symm spares
          rw [held_flush, List.filter_filter]
          apply List.filter_congr
          intro item _
          by_cases own : owner item = o
          · simp [own, ne]
          · simp [own]

/-- An item is in exactly one batch, or still put aside. -/
theorem batches_perm (steps : List (Spool κ ρ)) :
    ((batches owner steps).flatten ++ held owner steps).Perm (items steps) := by
  induction steps using List.reverseRecOn with
  | nil => exact List.Perm.refl _
  | append_singleton steps step ih =>
      cases step with
      | put item =>
          rw [batches_put, held_put, items_put, ← List.append_assoc]
          exact ih.append_right [item]
      | flush o =>
          rw [batches_flush, held_flush, items_flush, List.flatten_append, List.append_assoc]
          refine (List.Perm.append_left _ ?_).trans ih
          simpa using List.filter_append_perm (fun item => decide (owner item = o))
            (held owner steps)

/-- Among the items with the property `p`, those that are flushed are the oldest ones. -/
def InTurn (owner : ρ → κ) (p : ρ → Bool) (before : List (Spool κ ρ)) : Spool κ ρ → Prop
  | .put _ => True
  | .flush o => ((held owner before).filter p).filter (fun item => owner item = o) <+:
      (held owner before).filter p

/-- The chosen members come first when no other one is before them. -/
theorem front_of_pairwise {l : List ρ} {q : ρ → Bool}
    (first : l.Pairwise fun earlier later => q later = true → q earlier = true) :
    l.filter q <+: l := by
  induction l with
  | nil => exact List.nil_prefix
  | cons item l ih =>
      obtain ⟨head, tail⟩ := List.pairwise_cons.mp first
      cases chosen : q item with
      | true =>
          rw [List.filter_cons_of_pos chosen]
          exact List.cons_prefix_cons.mpr ⟨rfl, ih tail⟩
      | false =>
          have none : (item :: l).filter q = [] := by
            rw [List.filter_eq_nil_iff]
            intro other mem yes
            obtain rfl | mem := List.mem_cons.mp mem
            · rw [chosen] at yes
              cases yes
            · rw [head other mem yes] at chosen
              cases chosen
          rw [none]
          exact List.nil_prefix

/-- A list whose chosen members come first. -/
theorem filter_append_of_front {l : List ρ} {q : ρ → Bool} (front : l.filter q <+: l) :
    l.filter q ++ l.filter (fun item => !q item) = l := by
  obtain ⟨rest, split⟩ := front
  have unchosen : rest.filter q = [] := by
    have again := congrArg (List.filter q) split
    rw [List.filter_append, List.filter_filter] at again
    simpa using again
  have others : l.filter (fun item => !q item) = rest := by
    rw [← split, List.filter_append, List.filter_filter]
    have none : rest.filter (fun item => !q item) = rest := by
      rw [List.filter_eq_self]
      intro item mem
      simpa using List.filter_eq_nil_iff.mp unchosen item mem
    simpa using none
  rw [others, split]

/-- What is flushed in turn leaves in the order in which it was put aside. -/
theorem batches_in_turn {p : ρ → Bool} {steps : List (Spool κ ρ)}
    (turns : History.Always (InTurn owner p) steps) :
    (batches owner steps).flatten.filter p ++ (held owner steps).filter p =
      (items steps).filter p := by
  induction steps using List.reverseRecOn with
  | nil => rfl
  | append_singleton steps step ih =>
      obtain ⟨before, last⟩ := (History.always_append steps [step]).mp turns
      have turn : InTurn owner p steps step := by simpa using last
      cases step with
      | put item =>
          rw [batches_put, held_put, items_put, List.filter_append, List.filter_append, ← ih before,
            List.append_assoc]
      | flush o =>
          have split := filter_append_of_front turn
          rw [batches_flush, held_flush, items_flush, List.flatten_append, List.filter_append,
            List.append_assoc, ← ih before]
          congr 1
          refine Eq.trans ?_ split
          have swap (q : ρ → Bool) : ((held owner steps).filter q).filter p =
              ((held owner steps).filter p).filter q := by
            rw [List.filter_filter, List.filter_filter]
            simp only [Bool.and_comm]
          simp only [List.flatten_cons, List.flatten_nil, List.append_nil, swap, decide_not]

/-- The items of one owner leave in the order in which they were put aside. -/
theorem batches_owner (steps : List (Spool κ ρ)) (o : κ) :
    (batches owner steps).flatten.filter (fun item => owner item = o) ++
      (held owner steps).filter (fun item => owner item = o) =
        (items steps).filter fun item => owner item = o := by
  apply batches_in_turn
  intro front step back _
  cases step with
  | put item => trivial
  | flush other =>
      show _ <+: _
      by_cases own : other = o
      · subst own
        rw [List.filter_filter]
        simp
      · have none : ((held owner front).filter (fun item => owner item = o)).filter
            (fun item => owner item = other) = [] := by
          rw [List.filter_filter, List.filter_eq_nil_iff]
          intro item _ both
          simp only [Bool.and_eq_true, decide_eq_true_eq] at both
          exact own (both.1.symm.trans both.2)
        rw [none]
        exact List.nil_prefix

end Spool
