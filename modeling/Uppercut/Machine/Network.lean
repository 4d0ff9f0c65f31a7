import Uppercut.Machine.Run

/-!
# Nodes and the letters between them

A node handles letters, and inputs that come from outside, one at a time, and sends letters. A
letter that was sent stays there, and each step picks one. So letters may be late, arrive in
another order, several times or never.

What a node knows and what its own letters say is kept by its own steps. `Protocol.Inductive` is
the rule for that: a property of one node and a property of one letter, which the steps of other
nodes leave alone.
-/

universe u v

/-- A letter that `src` sent to `dst`. -/
structure Letter (α : Type u) (μ : Type v) where
  src : α
  dst : α
  message : μ
  deriving DecidableEq

/-- What the nodes do: the state of a node at the start, and its next state and letters after an
input, and after a letter from an address. `ε` is what a node reads of its surroundings. A node
that panics has no next state. -/
structure Protocol (α σ μ ι ε : Type) where
  start : σ
  input : α → σ → ι → σ × List (α × μ)
  handle : α → σ → ε → α → μ → Option (σ × List (α × μ))

structure Network (α σ μ : Type) where
  nodes : α → σ
  letters : List (Letter α μ)

inductive NetLabel (α ι ε : Type) where
  | input (node : α) (given : ι)
  /-- The letter at a place in the list arrives. -/
  | deliver (index : Nat) (around : ε)
  deriving DecidableEq

/-- The nodes are given inputs in `V` only. -/
def NetLabel.Within {α ι ε : Type} (V : α → ι → Prop) : NetLabel α ι ε → Prop
  | .input node given => V node given
  | .deliver .. => True

instance {α ι ε : Type} (V : α → ι → Prop) [∀ node given, Decidable (V node given)]
    (label : NetLabel α ι ε) : Decidable (label.Within V) :=
  match label with
  | .input node given => inferInstanceAs (Decidable (V node given))
  | .deliver .. => inferInstanceAs (Decidable True)

theorem NetLabel.within_true {α ι ε : Type} (label : NetLabel α ι ε) :
    label.Within fun _ _ => True := by
  cases label <;> trivial

/-- An input that a node was given. -/
structure Given (α ι : Type) where
  node : α
  input : ι
  deriving DecidableEq

namespace Protocol

variable {α σ μ ι ε : Type} [DecidableEq α]

/-- The letters of a node. -/
def post (node : α) (out : List (α × μ)) : List (Letter α μ) :=
  out.map fun (dst, message) => ⟨node, dst, message⟩

omit [DecidableEq α] in
theorem src_of_mem_post {node : α} {out : List (α × μ)} {letter : Letter α μ}
    (mem : letter ∈ post node out) : letter.src = node := by
  obtain ⟨_, _, rfl⟩ := List.mem_map.mp mem
  rfl

omit [DecidableEq α] in
theorem mem_post {node : α} {out : List (α × μ)} {letter : Letter α μ} :
    letter ∈ post node out ↔ letter.src = node ∧ (letter.dst, letter.message) ∈ out := by
  constructor
  · intro mem
    obtain ⟨_, here, rfl⟩ := List.mem_map.mp mem
    exact ⟨rfl, here⟩
  · rintro ⟨rfl, here⟩
    exact List.mem_map.mpr ⟨_, here, rfl⟩

def step (p : Protocol α σ μ ι ε) (net : Network α σ μ) :
    NetLabel α ι ε → Option (Network α σ μ × List (Given α ι))
  | .input node given =>
      let (state, out) := p.input node (net.nodes node) given
      some (⟨Function.update net.nodes node state, net.letters ++ post node out⟩, [⟨node, given⟩])
  | .deliver index around =>
      match net.letters[index]? with
      | none => none
      | some letter =>
          (p.handle letter.dst (net.nodes letter.dst) around letter.src letter.message).map
            fun (state, out) => (⟨Function.update net.nodes letter.dst state,
              net.letters ++ post letter.dst out⟩, [])

/-- The network, with what the nodes were given as its history. -/
def machine (p : Protocol α σ μ ι ε) :
    Machine (Network α σ μ) (NetLabel α ι ε) (Given α ι) where
  start := ⟨fun _ => p.start, []⟩
  step := p.step

/-- A property `I` of a node, of the letters and of what was given, and a property `J` of a letter.
Both outlast what other nodes do, and the steps of a node lead from `I` to `I`, and to letters
with `J`, when its inputs are in `V`. -/
structure Inductive (p : Protocol α σ μ ι ε) (V : α → ι → Prop)
    (I : α → σ → List (Letter α μ) → List (Given α ι) → Prop)
    (J : Letter α μ → List (Letter α μ) → List (Given α ι) → Prop) : Prop where
  start : ∀ node, I node p.start [] []
  keep : ∀ {node state letters h new seen}, I node state letters h →
    (∀ letter ∈ new, letter.src ≠ node) → (∀ x ∈ seen, x.node ≠ node) →
    I node state (letters ++ new) (h ++ seen)
  last : ∀ {letter letters h new seen}, J letter letters h →
    J letter (letters ++ new) (h ++ seen)
  input : ∀ {node state letters h given state' out}, V node given → I node state letters h →
    p.input node state given = (state', out) →
    I node state' (letters ++ post node out) (h ++ [⟨node, given⟩]) ∧
      ∀ letter ∈ post node out, J letter (letters ++ post node out) (h ++ [⟨node, given⟩])
  handle : ∀ {letter state letters h around state' out}, I letter.dst state letters h →
    letter ∈ letters → J letter letters h →
    p.handle letter.dst state around letter.src letter.message = some (state', out) →
    I letter.dst state' (letters ++ post letter.dst out) h ∧
      ∀ new ∈ post letter.dst out, J new (letters ++ post letter.dst out) h

section Rule

variable {p : Protocol α σ μ ι ε} {net : Network α σ μ} {h : List (Given α ι)}
variable {V : α → ι → Prop} {I : α → σ → List (Letter α μ) → List (Given α ι) → Prop}
variable {J : Letter α μ → List (Letter α μ) → List (Given α ι) → Prop}

/-- One node takes a step. -/
theorem Inductive.extend (rule : p.Inductive V I J) {node : α} {state : σ}
    {out : List (α × μ)} {seen : List (Given α ι)}
    (nodes : ∀ node, I node (net.nodes node) net.letters h)
    (letters : ∀ letter ∈ net.letters, J letter net.letters h)
    (own : I node state (net.letters ++ post node out) (h ++ seen))
    (sent : ∀ letter ∈ post node out, J letter (net.letters ++ post node out) (h ++ seen))
    (mine : ∀ x ∈ seen, x.node = node) :
    (∀ other, I other (Function.update net.nodes node state other)
        (net.letters ++ post node out) (h ++ seen)) ∧
      ∀ letter ∈ net.letters ++ post node out,
        J letter (net.letters ++ post node out) (h ++ seen) := by
  constructor
  · intro other
    by_cases same : other = node
    · subst same
      rw [Function.update_self]
      exact own
    · rw [Function.update_of_ne same]
      apply rule.keep (nodes other)
      · intro letter mem
        rw [src_of_mem_post mem]
        exact Ne.symm same
      · intro x mem
        rw [mine x mem]
        exact Ne.symm same
  · intro letter mem
    obtain old | new := List.mem_append.mp mem
    · exact rule.last (letters letter old)
    · exact sent letter new

/-- What nodes were given is in `V`. -/
theorem given_within (run : p.machine.Run (fun _ _ label => label.Within V) net h) :
    ∀ x ∈ h, V x.node x.input := by
  induction run with
  | start => nofun
  | @step net t h label seen before met taken ih =>
      refine List.forall_mem_append.mpr ⟨ih, ?_⟩
      cases label with
      | input node given =>
          cases taken
          rintro x mem
          obtain rfl := List.mem_singleton.mp mem
          exact met
      | deliver index around =>
          replace taken : p.step net (.deliver index around) = some (t, seen) := taken
          rw [step] at taken
          split at taken
          case h_1 => cases taken
          case h_2 =>
            obtain ⟨_, _, same⟩ := Option.map_eq_some_iff.mp taken
            cases same
            nofun

/-- The rule of nodes and letters. -/
theorem Inductive.run (rule : p.Inductive V I J)
    (run : p.machine.Run (fun _ _ label => label.Within V) net h) :
    (∀ node, I node (net.nodes node) net.letters h) ∧
      ∀ letter ∈ net.letters, J letter net.letters h := by
  induction run with
  | start => exact ⟨rule.start, fun _ mem => absurd mem List.not_mem_nil⟩
  | @step net t h label seen before met taken ih =>
      obtain ⟨nodes, letters⟩ := ih
      cases label with
      | input node given =>
          cases taken
          have input : p.input node (net.nodes node) given = (_, _) := rfl
          obtain ⟨own, sent⟩ := rule.input met (nodes node) input
          exact rule.extend nodes letters own sent (by simp)
      | deliver index around =>
          replace taken : p.step net (.deliver index around) = some (t, seen) := taken
          rw [step] at taken
          split at taken
          case h_1 => cases taken
          case h_2 letter found =>
            obtain ⟨⟨state, out⟩, handled, same⟩ := Option.map_eq_some_iff.mp taken
            cases same
            have mem := List.mem_of_getElem? found
            have next := rule.handle (nodes letter.dst) mem (letters letter mem) handled
            rw [← List.append_nil h] at next
            simpa using rule.extend nodes letters next.1 next.2 (by simp)

end Rule

end Protocol
