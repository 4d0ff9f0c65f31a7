import Uppercut.Machine.Path

/-!
# Queues along a path

What is taken from a queue was in front, and what is put on it comes behind. So whatever waits
moves up with each thing that is taken, and all of it is taken if no front stays for ever.
-/

universe u

/-- A queue at successive times, with what is put on it and what is taken from it, up to the
time when it has `ended`. -/
structure Conveyor (β : Type u) (ended : Nat → Prop) where
  waiting : Nat → List β
  put : Nat → List β
  taken : Nat → List β
  /-- What is taken was in front, and what is put there comes behind. -/
  next : ∀ n, ¬ ended (n + 1) → waiting n ++ put n = taken n ++ waiting (n + 1)

namespace Conveyor

variable {β : Type u} {ended : Nat → Prop} {b : β} {n : Nat}

/-- What waits is taken, or it moves up. -/
theorem moves_up (c : Conveyor β ended) (goes_on : ¬ ended (n + 1)) {front back : List β}
    (place : c.waiting n = front ++ b :: back) :
    b ∈ c.taken n ∨ ∃ front' back', c.waiting (n + 1) = front' ++ b :: back' ∧
      front = c.taken n ++ front' := by
  have law := c.next n goes_on
  rw [place, List.append_assoc, List.cons_append] at law
  obtain ⟨more, split, rest⟩ | ⟨more, split, rest⟩ := List.append_eq_append_iff.mp law
  · cases more with
    | nil => exact .inr ⟨[], _, rest.symm, by simpa using split.symm⟩
    | cons first more =>
        obtain ⟨rfl, _⟩ := List.cons.inj rest
        exact .inl (split ▸ List.mem_append_right front List.mem_cons_self)
  · exact .inr ⟨more, _, rest, split⟩

/-- Until something is taken, what waits stays where it is. -/
theorem stays (c : Conveyor β ended) {front back : List β}
    (place : c.waiting n = front ++ b :: back) {k : Nat} (later : n ≤ k)
    (alive : ∀ m, n ≤ m → m ≤ k → ¬ ended m) (idle : ∀ m, n ≤ m → m < k → b ∉ c.taken m) :
    ∃ front' back', c.waiting k = front' ++ b :: back' ∧ front'.length ≤ front.length := by
  induction k, later using Nat.le_induction with
  | base => exact ⟨front, back, place, Nat.le_refl _⟩
  | succ k later ih =>
      obtain ⟨front', back', place', fewer⟩ := ih
        (fun m after before => alive m after (Nat.le_succ_of_le before))
        fun m after before => idle m after (Nat.lt_succ_of_lt before)
      obtain now | ⟨ahead, behind, moved, rfl⟩ :=
        c.moves_up (alive (k + 1) (Nat.le_succ_of_le later) (Nat.le_refl _)) place'
      · exact absurd now (idle k later (Nat.lt_succ_self k))
      · refine ⟨ahead, behind, moved, ?_⟩
        rw [List.length_append] at fewer
        omega

/-- What is put there is taken, or it waits. -/
theorem waits_or_taken (c : Conveyor β ended) (goes_on : ¬ ended (n + 1)) (new : b ∈ c.put n) :
    b ∈ c.taken n ∨ b ∈ c.waiting (n + 1) := by
  rw [← List.mem_append, ← c.next n goes_on]
  exact List.mem_append_right _ new

/-- While nothing is taken, a queue does not become empty. -/
theorem idle (c : Conveyor β ended) (some : c.waiting n ≠ [])
    (never : ∀ m, n ≤ m → c.taken m = [] ∧ ¬ ended m) {k : Nat} (later : n ≤ k) :
    c.waiting k ≠ [] := by
  induction k, later using Nat.le_induction with
  | base => exact some
  | succ k later ih =>
      intro none
      have law := c.next k (never (k + 1) (Nat.le_succ_of_le later)).2
      rw [(never k later).1, none] at law
      exact ih (List.append_eq_nil_iff.mp law).1

/-- What is taken at last, or lost in the end, waits until then. -/
theorem until_taken (c : Conveyor β ended) (waits : b ∈ c.waiting n)
    (leaves : ∃ k, n ≤ k ∧ (b ∈ c.taken k ∨ ended k)) :
    ∃ k, n ≤ k ∧ (b ∈ c.taken k ∨ ended k) ∧ ∀ m, n ≤ m → m < k → b ∈ c.waiting m := by
  apply LeadsTo.exists_first waits ?_ leaves
  intro m here stays
  by_cases past : ended (m + 1)
  · exact .inr (.inr past)
  · obtain ⟨front, back, place⟩ := List.append_of_mem here
    obtain now | ⟨front', back', place', _⟩ := c.moves_up past place
    · exact absurd (.inl now) stays
    · exact .inl (by simp [place'])

/-- If no front stays for ever, all that waits is taken. -/
theorem delivers (c : Conveyor β ended)
    (moves : ∀ n, c.waiting n ≠ [] → ∃ k, n ≤ k ∧ (c.taken k ≠ [] ∨ ended k))
    (waits : b ∈ c.waiting n) : ∃ k, n ≤ k ∧ (b ∈ c.taken k ∨ ended k) := by
  obtain ⟨front, back, place⟩ := List.append_of_mem waits
  induction size : front.length using Nat.strong_induction_on generalizing n front back with
  | _ r ih =>
      by_contra never
      push Not at never
      obtain ⟨k, later, some_taken | past⟩ := moves n (by simp [place])
      · obtain ⟨front', back', place', fewer⟩ := c.stays place later
          (fun m after _ => (never m after).2) fun m after _ => (never m after).1
        have beyond := Nat.le_succ_of_le later
        obtain now | ⟨ahead, behind, moved, rfl⟩ := c.moves_up (never (k + 1) beyond).2 place'
        · exact (never k later).1 now
        · have some : 0 < (c.taken k).length := List.length_pos_of_ne_nil some_taken
          rw [List.length_append] at fewer
          obtain ⟨l, last, done⟩ := ih ahead.length (by omega) (by simp [moved]) ahead behind
            moved rfl
          exact done.elim (never l (beyond.trans last)).1 (never l (beyond.trans last)).2
      · exact (never k later).2 past

end Conveyor
