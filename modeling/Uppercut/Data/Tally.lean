import Mathlib

/-!
# Counting over lists with one changing entry

A party of a system takes a step: one entry of the list of parties changes. What
a weight adds up to over the list changes by exactly that entry's difference.
-/

universe u

namespace Tally

variable {α : Type u} {l : List α} {i : Nat} {old : α}

/-- The total of a weight over a list. -/
def total (weight : α → Nat) (l : List α) : Nat := (l.map weight).sum

@[simp] theorem total_nil (weight : α → Nat) : total weight [] = 0 := rfl

@[simp] theorem total_cons (weight : α → Nat) (a : α) (l : List α) :
    total weight (a :: l) = weight a + total weight l := by
  simp [total]

@[simp] theorem total_append (weight : α → Nat) (l k : List α) :
    total weight (l ++ k) = total weight l + total weight k := by
  simp [total]

theorem total_set (weight : α → Nat) (at_i : l[i]? = some old) (new : α) :
    total weight (l.set i new) + weight old = total weight l + weight new := by
  induction l generalizing i with
  | nil => simp at at_i
  | cons a l ih =>
      cases i with
      | zero =>
          simp only [List.getElem?_cons_zero, Option.some.injEq] at at_i
          subst at_i
          simp only [List.set_cons_zero, total_cons]
          omega
      | succ i =>
          have rest := ih (by simpa using at_i)
          simp only [List.set_cons_succ, total_cons]
          omega

theorem total_add_le {f g k : α → Nat} (le : ∀ a, f a + g a ≤ k a) (l : List α) :
    total f l + total g l ≤ total k l := by
  induction l with
  | nil => exact Nat.le_refl _
  | cons a l ih =>
      have := le a
      simp only [total_cons]
      omega

theorem total_eq_zero (weight : α → Nat) : total weight l = 0 ↔ ∀ a ∈ l, weight a = 0 := by
  simp [total, List.sum_eq_zero_iff_forall_eq_nat]

theorem weight_le_total (weight : α → Nat) {a : α} (mem : a ∈ l) : weight a ≤ total weight l := by
  obtain ⟨front, back, rfl⟩ := List.append_of_mem mem
  simp only [total_append, total_cons]
  omega

end Tally
