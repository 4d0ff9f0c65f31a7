import Mathlib

/-!
# Lanes: queues whose entries are stamped when they enter

A lane is everything that ever passed a point of a system or is still on its way to
it, oldest first. Entries come in directly, at the end, or they are put aside and
join the end later. Entries may get lost anywhere. Every entry carries a stamp that
was not used before.

Direct entries stay in the order of their stamps, and no stamp occurs twice.
-/

universe u

/-- The entries of a lane and what is known of where they come from. -/
structure Lane (α : Type u) where
  line : List α
  /-- Entries that have yet to join the line. -/
  aside : List α
  /-- The entries that were put at the end of the line when they came in. -/
  direct : List α
  /-- All entries that ever came in. -/
  given : List α
  /-- Stamps from here on are free. -/
  bound : Nat

namespace Lane

variable {α : Type u} {stamp : α → Nat} {l k : Lane α}

/-- What can happen to a lane. -/
inductive Step (stamp : α → Nat) (l k : Lane α) : Prop where
  | lose (kept : k.line.Sublist l.line) (waits : k.aside.Subperm l.aside)
      (direct : k.direct = l.direct) (given : k.given = l.given) (later : l.bound ≤ k.bound)
  | push (a : α) (fresh : stamp a = l.bound) (line : k.line = l.line ++ [a])
      (aside : k.aside = l.aside) (direct : k.direct = l.direct ++ [a])
      (given : k.given = l.given ++ [a]) (later : k.bound = l.bound + 1)
  | put (a : α) (fresh : stamp a = l.bound) (line : k.line = l.line)
      (added : k.aside.Perm (a :: l.aside)) (direct : k.direct = l.direct)
      (given : k.given = l.given ++ [a]) (later : k.bound = l.bound + 1)
  | join (a : α) (line : k.line = l.line ++ [a]) (taken : l.aside.Perm (a :: k.aside))
      (direct : k.direct = l.direct) (given : k.given = l.given) (later : k.bound = l.bound)

/-- Stamps are used once, and direct entries are in the order of their stamps. -/
structure Ordered (stamp : α → Nat) (l : Lane α) : Prop where
  old : ∀ a ∈ l.given, stamp a < l.bound
  given : ∀ a ∈ l.line ++ l.aside, a ∈ l.given
  direct : ∀ a ∈ l.direct, a ∈ l.given
  once : ((l.line ++ l.aside).map stamp).Nodup
  apart : ∀ a ∈ l.aside, a ∉ l.direct
  increasing : l.direct.Pairwise fun a b => stamp a < stamp b
  ordered : l.line.Pairwise fun a b => a ∈ l.direct → b ∈ l.direct → stamp a < stamp b

def empty : Lane α := ⟨[], [], [], [], 0⟩

theorem ordered_empty : Ordered stamp (empty : Lane α) := by
  constructor <;> simp [empty]

/-- An entry that comes in is stamped later than all before it. -/
theorem Ordered.below (ordered : l.Ordered stamp) {a b : α} (fresh : stamp a = l.bound)
    (mem : b ∈ l.given) : stamp b < stamp a := by
  rw [fresh]
  exact ordered.old b mem

/-- A new entry has a stamp that nothing in the lane has. -/
theorem Ordered.fresh (ordered : l.Ordered stamp) {a : α} (fresh : stamp a = l.bound) :
    stamp a ∉ (l.line ++ l.aside).map stamp := by
  intro mem
  obtain ⟨b, here, same⟩ := List.mem_map.mp mem
  have below := ordered.below fresh (ordered.given b here)
  omega

/-- With the new entry all stamps are below the next bound. -/
theorem Ordered.bounded (ordered : l.Ordered stamp) {a : α} (fresh : stamp a = l.bound) :
    ∀ b ∈ l.given ++ [a], stamp b < l.bound + 1 := by
  intro b mem
  obtain old | last := List.mem_append.mp mem
  · exact Nat.lt_succ_of_lt (ordered.old b old)
  · rw [List.mem_singleton.mp last, fresh]
    exact Nat.lt_succ_self _

theorem Ordered.lose (ordered : l.Ordered stamp) (kept : k.line.Sublist l.line)
    (waits : k.aside.Subperm l.aside) (direct : k.direct = l.direct) (given : k.given = l.given)
    (later : l.bound ≤ k.bound) : k.Ordered stamp := by
  have sub : (k.line ++ k.aside).Subperm (l.line ++ l.aside) := kept.subperm.append waits
  constructor <;> try simp only [direct, given]
  · intro a mem
    exact Nat.lt_of_lt_of_le (ordered.old a mem) later
  · intro a mem
    exact ordered.given a (sub.subset mem)
  · exact ordered.direct
  · obtain ⟨mid, same, sub⟩ := sub
    exact (same.map stamp).nodup_iff.mp (ordered.once.sublist (sub.map stamp))
  · intro a mem
    exact ordered.apart a (waits.subset mem)
  · exact ordered.increasing
  · exact ordered.ordered.sublist kept

theorem Ordered.push (ordered : l.Ordered stamp) {a : α} (fresh : stamp a = l.bound)
    (line : k.line = l.line ++ [a]) (aside : k.aside = l.aside)
    (direct : k.direct = l.direct ++ [a]) (given : k.given = l.given ++ [a])
    (later : k.bound = l.bound + 1) : k.Ordered stamp := by
  constructor <;> try simp only [line, aside, direct, given, later]
  · exact ordered.bounded fresh
  · intro b mem
    have known := ordered.given b
    simp only [List.mem_append, List.mem_singleton] at mem known ⊢
    tauto
  · intro b mem
    simp only [List.mem_append, List.mem_singleton] at mem ⊢
    exact mem.imp (ordered.direct b) id
  · have moved : (l.line ++ [a] ++ l.aside).Perm (a :: (l.line ++ l.aside)) := by
      simp
    exact (moved.map stamp).nodup_iff.mpr (List.nodup_cons.mpr ⟨ordered.fresh fresh, ordered.once⟩)
  · intro b mem joins
    obtain old | last := List.mem_append.mp joins
    · exact ordered.apart b mem old
    · have below := ordered.below fresh (ordered.given b (List.mem_append_right _ mem))
      rw [List.mem_singleton.mp last] at below
      exact Nat.lt_irrefl _ below
  · refine List.pairwise_append.mpr ⟨ordered.increasing, List.pairwise_singleton _ a, ?_⟩
    intro b mem c last
    rw [List.mem_singleton.mp last]
    exact ordered.below fresh (ordered.direct b mem)
  · have old (b : α) (mem : b ∈ l.line) : stamp b < stamp a :=
      ordered.below fresh (ordered.given b (List.mem_append_left _ mem))
    have among (b : α) (mem : b ∈ l.line) (joins : b ∈ l.direct ++ [a]) : b ∈ l.direct := by
      apply (List.mem_append.mp joins).resolve_right
      intro last
      have below := old b mem
      rw [List.mem_singleton.mp last] at below
      exact Nat.lt_irrefl _ below
    refine List.pairwise_append.mpr ⟨?_, List.pairwise_singleton _ a, ?_⟩
    · apply ordered.ordered.imp_of_mem
      intro b c b_mem c_mem order b_in c_in
      exact order (among b b_mem b_in) (among c c_mem c_in)
    · intro b mem c last _ _
      rw [List.mem_singleton.mp last]
      exact old b mem

theorem Ordered.put (ordered : l.Ordered stamp) {a : α} (fresh : stamp a = l.bound)
    (line : k.line = l.line) (added : k.aside.Perm (a :: l.aside)) (direct : k.direct = l.direct)
    (given : k.given = l.given ++ [a]) (later : k.bound = l.bound + 1) : k.Ordered stamp := by
  constructor <;> try simp only [line, direct, given, later]
  · exact ordered.bounded fresh
  · intro b mem
    have known := ordered.given b
    simp only [List.mem_append, added.mem_iff, List.mem_cons] at mem known ⊢
    tauto
  · intro b mem
    exact List.mem_append_left _ (ordered.direct b mem)
  · have moved : (l.line ++ k.aside).Perm (a :: (l.line ++ l.aside)) :=
      (added.append_left l.line).trans List.perm_middle
    exact (moved.map stamp).nodup_iff.mpr (List.nodup_cons.mpr ⟨ordered.fresh fresh, ordered.once⟩)
  · intro b mem joins
    obtain rfl | old := List.mem_cons.mp (added.mem_iff.mp mem)
    · exact Nat.lt_irrefl _ (ordered.below fresh (ordered.direct b joins))
    · exact ordered.apart b old joins
  · exact ordered.increasing
  · exact ordered.ordered

theorem Ordered.join (ordered : l.Ordered stamp) {a : α} (line : k.line = l.line ++ [a])
    (taken : l.aside.Perm (a :: k.aside)) (direct : k.direct = l.direct)
    (given : k.given = l.given) (later : k.bound = l.bound) : k.Ordered stamp := by
  have moved : (l.line ++ [a] ++ k.aside).Perm (l.line ++ l.aside) := by
    simpa using taken.symm.append_left l.line
  have waits : a ∈ l.aside := taken.mem_iff.mpr List.mem_cons_self
  constructor <;> try simp only [line, direct, given, later]
  · exact ordered.old
  · intro b mem
    exact ordered.given b (moved.mem_iff.mp mem)
  · exact ordered.direct
  · exact (moved.map stamp).nodup_iff.mpr ordered.once
  · intro b mem
    exact ordered.apart b (taken.mem_iff.mpr (List.mem_cons_of_mem a mem))
  · exact ordered.increasing
  · refine List.pairwise_append.mpr ⟨ordered.ordered, List.pairwise_singleton _ a, ?_⟩
    intro b _ c last _ joins
    rw [List.mem_singleton.mp last] at joins
    exact absurd joins (ordered.apart a waits)

theorem Ordered.step (ordered : l.Ordered stamp) (step : Step stamp l k) : k.Ordered stamp := by
  cases step with
  | lose kept waits direct given later => exact ordered.lose kept waits direct given later
  | push a fresh line aside direct given later =>
      exact ordered.push fresh line aside direct given later
  | put a fresh line added direct given later =>
      exact ordered.put fresh line added direct given later
  | join a line taken direct given later => exact ordered.join line taken direct given later

end Lane
