import Mathlib

/-!
# Finite-map operations on lookup functions

A hash map is represented by its lookup function. Insertion and removal are
mathlib's `Function.update`; iteration order is never observable through them.
-/

universe u v

/-- The lookup function of a key-value map. -/
abbrev Table (κ : Type u) (α : Type v) := κ → Option α

namespace Table

variable {κ : Type u} {α : Type v}

def empty : Table κ α := fun _ => none

@[simp] theorem empty_apply (key : κ) : (empty : Table κ α) key = none := rfl

variable [DecidableEq κ]

/-- Bind `key`, replacing what was bound before. -/
def insert (table : Table κ α) (key : κ) (value : α) : Table κ α :=
  Function.update table key (some value)

/-- Forget `key`. -/
def remove (table : Table κ α) (key : κ) : Table κ α :=
  Function.update table key none

@[simp] theorem insert_self (table : Table κ α) (key : κ) (value : α) :
    table.insert key value key = some value := Function.update_self _ _ _

@[simp] theorem remove_self (table : Table κ α) (key : κ) : table.remove key key = none :=
  Function.update_self _ _ _

theorem insert_ne (table : Table κ α) {key other : κ} (value : α) (ne : other ≠ key) :
    table.insert key value other = table other := Function.update_of_ne ne _ _

theorem remove_ne (table : Table κ α) {key other : κ} (ne : other ≠ key) :
    table.remove key other = table other := Function.update_of_ne ne _ _

theorem insert_apply (table : Table κ α) (key other : κ) (value : α) :
    table.insert key value other = if other = key then some value else table other :=
  Function.update_apply _ _ _ _

theorem remove_apply (table : Table κ α) (key other : κ) :
    table.remove key other = if other = key then none else table other :=
  Function.update_apply _ _ _ _

/-- Removing an absent key changes nothing. -/
theorem remove_of_none {table : Table κ α} {key : κ} (absent : table key = none) :
    table.remove key = table := by
  rw [remove, ← absent, Function.update_eq_self]

/-- What holds of every entry holds after an insertion when it holds of the new entry. -/
theorem forall_insert {table : Table κ α} {p : κ → α → Prop} {key : κ} {value : α}
    (old : ∀ key value, table key = some value → p key value) (new : p key value) :
    ∀ other result, table.insert key value other = some result → p other result := by
  intro other result found
  rw [insert_apply] at found
  split at found
  case isTrue same =>
    cases found
    exact same ▸ new
  case isFalse => exact old other result found

/-- What holds of every entry holds after a removal. -/
theorem forall_remove {table : Table κ α} {p : κ → α → Prop} {key : κ}
    (old : ∀ key value, table key = some value → p key value) :
    ∀ other result, table.remove key other = some result → p other result := by
  intro other result found
  rw [remove_apply] at found
  split at found
  · cases found
  · exact old other result found

/-! ## Inverse tables -/

section Inverse

universe w

variable {β : Type w} [DecidableEq β]

/-- The index leads from the name of each entry to its key, and nowhere else. -/
def Inverse (table : Table κ α) (index : Table β κ) (name : α → β) : Prop :=
  ∀ b key, index b = some key ↔ ∃ value, table key = some value ∧ name value = b

variable {table : Table κ α} {index : Table β κ} {name : α → β} {key : κ} {value value' : α}

omit [DecidableEq β] in
theorem Inverse.replace (inverse : Inverse table index name) (known : table key = some value)
    (same : name value' = name value) : Inverse (table.insert key value') index name := by
  intro b other
  rw [inverse b other, insert_apply]
  split
  case isTrue own =>
    subst own
    simp [known, same]
  case isFalse => exact Iff.rfl

theorem Inverse.remove (inverse : Inverse table index name) (known : table key = some value) :
    Inverse (table.remove key) (index.remove (name value)) name := by
  intro b other
  have own := (inverse (name value) key).mpr ⟨value, known, rfl⟩
  rw [remove_apply, remove_apply]
  by_cases same : other = key
  · subst same
    rw [if_pos rfl]
    constructor
    · intro found
      split at found
      case isTrue => cases found
      case isFalse away =>
        obtain ⟨v, here, named⟩ := (inverse b other).mp found
        rw [known] at here
        cases here
        exact absurd named.symm away
    · rintro ⟨v, here, _⟩
      cases here
  · rw [if_neg same]
    split
    case isTrue gone =>
      -- No other entry had the name of the entry that is removed.
      subst gone
      constructor
      · intro found
        cases found
      · intro held
        have double := (inverse (name value) other).mpr held
        rw [own] at double
        exact absurd (Option.some.inj double).symm same
    case isFalse => exact inverse b other

theorem Inverse.insert (inverse : Inverse table index name) (unused : table key = none)
    (fresh : index (name value) = none) :
    Inverse (table.insert key value) (index.insert (name value) key) name := by
  intro b other
  rw [insert_apply, insert_apply]
  by_cases same : other = key
  · subst same
    rw [if_pos rfl]
    constructor
    · intro found
      split at found
      case isTrue own => exact ⟨value, rfl, own.symm⟩
      case isFalse =>
        obtain ⟨v, here, _⟩ := (inverse b other).mp found
        rw [unused] at here
        cases here
    · rintro ⟨v, here, named⟩
      cases here
      exact if_pos named.symm
  · rw [if_neg same]
    split
    case isTrue own =>
      subst own
      constructor
      · intro found
        exact absurd (Option.some.inj found).symm same
      · intro held
        have double := (inverse (name value) other).mpr held
        rw [fresh] at double
        cases double
    case isFalse => exact inverse b other

end Inverse

end Table
