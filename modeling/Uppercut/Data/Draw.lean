import Mathlib

/-!
# Drawing the least items

Items are drawn from a list one after the other, each time one of those whose key is least, as
long as that key is within a bound. Which one is drawn among equal keys is left open. The draw
comes to an end, and then all items within the bound have been drawn, in the order of their keys.
-/

universe u v

variable {α : Type u} {β : Type v} [LinearOrder β] {key : α → β} {bound : β}
variable {l k out rest : List α} {a : α}

/-- `a` is drawn from `l` and leaves `k`. -/
def Draws (key : α → β) (bound : β) (l : List α) (a : α) (k : List α) : Prop :=
  (∃ index, l[index]? = some a ∧ k = l.eraseIdx index) ∧ (∀ b ∈ l, key a ≤ key b) ∧ key a ≤ bound

/-- The items of `out` are drawn from `l` one after the other and leave `rest`. -/
inductive Drawn (key : α → β) (bound : β) : List α → List α → List α → Prop where
  | nil (l : List α) : Drawn key bound l [] l
  | cons {l k out rest : List α} {a : α} (draws : Draws key bound l a k)
      (more : Drawn key bound k out rest) : Drawn key bound l (a :: out) rest

theorem Draws.perm (draws : Draws key bound l a k) : l.Perm (a :: k) := by
  obtain ⟨⟨index, known, rfl⟩, _⟩ := draws
  obtain ⟨inside, rfl⟩ := List.getElem?_eq_some_iff.mp known
  exact (List.getElem_cons_eraseIdx_perm inside).symm

/-- The items that are not drawn keep their order. -/
theorem Draws.filter (draws : Draws key bound l a k) :
    (k.filter fun b => ¬ key b ≤ bound) = l.filter fun b => ¬ key b ≤ bound := by
  obtain ⟨⟨index, known, rfl⟩, _, within⟩ := draws
  obtain ⟨inside, rfl⟩ := List.getElem?_eq_some_iff.mp known
  have split : l = l.take index ++ l[index] :: l.drop (index + 1) := by
    rw [← List.drop_eq_getElem_cons inside, List.take_append_drop]
  have all := congrArg (List.filter fun b => ¬ key b ≤ bound) split
  rw [List.filter_append, List.filter_cons_of_neg (by simpa using within)] at all
  rw [List.eraseIdx_eq_take_drop_succ, List.filter_append]
  exact all.symm

/-- There is something to draw as long as an item is within the bound. -/
theorem exists_draws (within : ∃ a ∈ l, key a ≤ bound) : ∃ a k, Draws key bound l a k := by
  obtain ⟨b, mem, small⟩ := within
  obtain ⟨a, known, least⟩ : ∃ a ∈ l, ∀ b ∈ l, key a ≤ key b := by
    cases least : l.argmin key with
    | none =>
        rw [List.argmin_eq_none.mp least] at mem
        cases mem
    | some a => exact ⟨a, List.argmin_mem least, fun b mem => List.le_of_mem_argmin mem least⟩
  obtain ⟨index, inside⟩ := List.getElem?_of_mem known
  exact ⟨a, l.eraseIdx index, ⟨index, inside, rfl⟩, least, (least b mem).trans small⟩

namespace Drawn

theorem perm (drawn : Drawn key bound l out rest) : l.Perm (out ++ rest) := by
  induction drawn with
  | nil => exact .refl _
  | cons draws _ ih => exact draws.perm.trans (ih.cons _)

theorem length_le (drawn : Drawn key bound l out rest) : out.length ≤ l.length := by
  rw [drawn.perm.length_eq, List.length_append]
  exact Nat.le_add_right _ _

theorem within (drawn : Drawn key bound l out rest) : ∀ a ∈ out, key a ≤ bound := by
  induction drawn with
  | nil => exact fun _ mem => absurd mem List.not_mem_nil
  | cons draws _ ih => exact List.forall_mem_cons.mpr ⟨draws.2.2, ih⟩

theorem sorted (drawn : Drawn key bound l out rest) :
    out.Pairwise fun a b => key a ≤ key b := by
  induction drawn with
  | nil => exact .nil
  | @cons l k out rest a draws more ih =>
      refine List.pairwise_cons.mpr ⟨?_, ih⟩
      intro b mem
      apply draws.2.1
      exact draws.perm.mem_iff.mpr
        (List.mem_cons_of_mem a (more.perm.mem_iff.mpr (List.mem_append_left rest mem)))

theorem filter_rest (drawn : Drawn key bound l out rest) :
    (rest.filter fun b => ¬ key b ≤ bound) = l.filter fun b => ¬ key b ≤ bound := by
  induction drawn with
  | nil => rfl
  | cons draws _ ih => rw [ih, draws.filter]

/-- At its end a draw has taken exactly the items within the bound. -/
theorem complete (drawn : Drawn key bound l out rest) (done : ∀ b ∈ rest, ¬ key b ≤ bound) :
    out.Perm (l.filter fun a => key a ≤ bound) ∧ rest = l.filter fun a => ¬ key a ≤ bound := by
  have left : rest = l.filter fun a => ¬ key a ≤ bound := by
    rw [← drawn.filter_rest, List.filter_eq_self.mpr]
    intro b mem
    exact decide_eq_true (done b mem)
  refine ⟨?_, left⟩
  have all := drawn.perm.filter fun a => key a ≤ bound
  have none : (rest.filter fun a => key a ≤ bound) = [] := by
    rw [List.filter_eq_nil_iff]
    intro b mem
    simpa using done b mem
  have same : (out.filter fun a => key a ≤ bound) = out := by
    rw [List.filter_eq_self]
    intro a mem
    exact decide_eq_true (drawn.within a mem)
  rw [List.filter_append, none, same, List.append_nil] at all
  exact all.symm

end Drawn
