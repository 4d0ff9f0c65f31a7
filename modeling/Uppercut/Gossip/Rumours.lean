import Uppercut.Gossip.Agent

/-!
# How far rumours go

What agents tell each other of a beat was told by the agent that it is the beat of. So what an
agent knows of a peer is never ahead of the peer, however late the letters are, however often they
arrive and through however many agents the news came. An agent without a tag passes its beat on
without one.
-/

namespace Uppercut.Gossip

open Protocol Gossip.Message

namespace Agent

variable {me tag «from» : String} {time beat : UInt64} {peers peers' : List Peer}
variable {pairs : List (String × UInt64)} {agent : Agent} {P : String → UInt64 → Prop}

theorem hear_keeps (heard : hear time tag beat peers = some peers')
    (known : ∀ peer ∈ peers, P peer.tag peer.beat) (told : P tag beat) :
    ∀ peer ∈ peers', P peer.tag peer.beat := by
  induction peers generalizing peers' with
  | nil => cases heard
  | cons peer peers ih =>
      obtain ⟨first, rest⟩ := List.forall_mem_cons.mp known
      rw [hear] at heard
      split at heard
      case isTrue here =>
        cases heard
        apply List.forall_mem_cons.mpr ⟨?_, rest⟩
        split
        · exact here ▸ told
        · exact first
      case isFalse =>
        obtain ⟨others, found, rfl⟩ := Option.map_eq_some_iff.mp heard
        exact List.forall_mem_cons.mpr ⟨first, ih found rest⟩

theorem acceptLoop_keeps {own : String} (known : ∀ peer ∈ peers, P peer.tag peer.beat)
    (told : ∀ pair ∈ pairs, P pair.1 pair.2) :
    ∀ peer ∈ (acceptLoop time own pairs peers).1, P peer.tag peer.beat := by
  induction pairs generalizing peers with
  | nil => exact known
  | cons pair pairs ih =>
      obtain ⟨tag, beat⟩ := pair
      obtain ⟨first, rest⟩ := List.forall_mem_cons.mp told
      rw [acceptLoop]
      split
      case isTrue => exact ih known rest
      case isFalse =>
        split
        case h_1 peers' heard => exact ih (hear_keeps heard known first) rest
        case h_2 =>
          apply ih _ rest
          exact List.forall_mem_append.mpr ⟨known, by simpa using first⟩

/-- Gossip is about the agent itself and about what it knows. -/
theorem gossip_keeps (known : ∀ peer ∈ agent.peers, P peer.tag peer.beat)
    (own : P agent.tag agent.beat) : ∀ pair ∈ agent.gossip time, P pair.1 pair.2 := by
  rw [gossip]
  split
  case isTrue => simpa using own
  case isFalse =>
    intro pair mem
    obtain rfl | mem := List.mem_cons.mp mem
    · have inside := List.get_mem ((agent.peers.filter fun peer =>
        decide (peer.seen + agent.horizon ≥ time)).map fun peer => (peer.tag, peer.beat))
      obtain ⟨peer, mem, same⟩ := List.mem_map.mp (inside ⟨agent.beat.toNat % _, _⟩)
      rw [← same]
      exact known peer (List.mem_filter.mp mem).1
    · obtain rfl := List.mem_singleton.mp mem
      exact own

theorem length_gossip_le (agent : Agent) (time : UInt64) : (agent.gossip time).length ≤ 2 := by
  rw [gossip]
  split <;> simp

end Agent

/-! ## The invariant -/

def Agent.Turn.isTick : Agent.Turn → Bool
  | .tick _ => true
  | .bytes .. | .init .. => false

/-- How often the node was told to beat. -/
def ticks (h : List (Given String Agent.Turn)) (node : String) : Nat :=
  h.countP fun x => x.node = node && x.input.isTick

/-- The node with the tag has had the beat, or some node when there is no tag. -/
def Lived (h : List (Given String Agent.Turn)) (tag : String) (beat : UInt64) : Prop :=
  ∃ node, (tag = "" ∨ tag = node) ∧ beat.toNat ≤ ticks h node

/-- What is known of a tag and a beat that agents tell each other. -/
def Rumour (h : List (Given String Agent.Turn)) (tag : String) (beat : UInt64) : Prop :=
  Short tag ∧ Lived h tag beat

/-- What is known of a message that was sent. -/
def Honest (src dst : String) (h : List (Given String Agent.Turn)) : Message → Prop
  | .ping target beat | .pong target beat => target = dst ∧ Lived h src beat
  | .gossip pairs => pairs.length ≤ 2 ∧ ∀ pair ∈ pairs, Rumour h pair.1 pair.2
  | .stop | .tick | .init .. => False

/-- What is known of a letter. -/
structure Sound (letter : Letter String (List UInt8)) (h : List (Given String Agent.Turn)) :
    Prop where
  src : Short letter.src
  dst : Short letter.dst
  message : ∃ m, letter.message = m.toBytes ∧ Honest letter.src letter.dst h m

/-- What is known of the agent at `node`. -/
structure Known (node : String) (agent : Agent) (h : List (Given String Agent.Turn)) : Prop where
  beat : agent.beat = UInt64.ofNat (ticks h node)
  tag : agent.tag = "" ∨ agent.tag = node
  peers : ∀ peer ∈ agent.peers, Rumour h peer.tag peer.beat

/-- Names are short, and the only message from outside is the stop. -/
def Valid (node : String) : Agent.Turn → Prop
  | .bytes buf _ _ => buf = Message.stop.toBytes
  | .tick _ => Short node
  | .init _ _ _ pings => Short node ∧ ∀ tag ∈ pings, Short tag

instance (node : String) (turn : Agent.Turn) : Decidable (Valid node turn) := by
  cases turn <;> unfold Valid <;> infer_instance

section Invariant

variable {node src dst tag : String} {beat : UInt64} {agent agent' : Agent} {m : Message}
variable {h seen : List (Given String Agent.Turn)} {out : List (String × Message)}

theorem ticks_append (h seen : List (Given String Agent.Turn)) (node : String) :
    ticks (h ++ seen) node = ticks h node + ticks seen node :=
  List.countP_append ..

theorem ticks_of_other (other : ∀ x ∈ seen, x.node ≠ node) : ticks seen node = 0 := by
  apply List.countP_eq_zero.mpr
  intro x mem
  simp [other x mem]

theorem Lived.append (lived : Lived h tag beat) : Lived (h ++ seen) tag beat := by
  obtain ⟨node, own, early⟩ := lived
  refine ⟨node, own, ?_⟩
  rw [ticks_append]
  omega

theorem Rumour.append (rumour : Rumour h tag beat) : Rumour (h ++ seen) tag beat :=
  ⟨rumour.1, rumour.2.append⟩

theorem Honest.append (honest : Honest src dst h m) : Honest src dst (h ++ seen) m := by
  cases m with
  | ping | pong => exact ⟨honest.1, honest.2.append⟩
  | gossip => exact ⟨honest.1, fun pair mem => (honest.2 pair mem).append⟩
  | stop | tick | init => exact honest

theorem Known.append (known : Known node agent h) (other : ∀ x ∈ seen, x.node ≠ node) :
    Known node agent (h ++ seen) where
  beat := by rw [known.beat, ticks_append, ticks_of_other other, Nat.add_zero]
  tag := known.tag
  peers peer mem := (known.peers peer mem).append

theorem Honest.fits (honest : Honest src dst h m) (short : Short dst) : m.Fits := by
  cases m with
  | ping | pong => exact honest.1 ▸ short
  | gossip => exact ⟨honest.1.trans_lt (by decide), fun pair mem => (honest.2 pair mem).1⟩
  | stop | tick | init => exact honest.elim

/-- The own beat is one that the node has had. -/
theorem Known.lived (known : Known node agent h) : Lived h node agent.beat := by
  refine ⟨node, .inr rfl, ?_⟩
  rw [known.beat, UInt64.toNat_ofNat']
  exact Nat.mod_le _ _

theorem Known.own (known : Known node agent h) (short : Short node) :
    Rumour h agent.tag agent.beat := by
  obtain ⟨_, _, early⟩ := known.lived
  obtain own | own := known.tag
  · exact ⟨own ▸ (by decide : Short ""), _, .inl own, early⟩
  · exact ⟨own ▸ short, own ▸ known.lived⟩

/-- An agent that is told of its tag. -/
theorem Known.named (known : Known node agent h) : Known node { agent with tag := node } h :=
  { known with tag := .inr rfl }

theorem Known.accept (known : Known node agent h) {pairs : List (String × UInt64)}
    (told : ∀ pair ∈ pairs, Rumour h pair.1 pair.2) (time : UInt64) :
    Known node (agent.accept time pairs).1 h where
  beat := known.beat
  tag := known.tag
  peers := Agent.acceptLoop_keeps known.peers told

/-- What an agent sends. -/
def Sends (node : String) (out : List (String × Message))
    (h : List (Given String Agent.Turn)) : Prop :=
  ∀ dst m, (dst, m) ∈ out → Short dst ∧ Honest node dst h m

theorem Known.handle {me : String} {time : UInt64} {events : List Event}
    (known : Known node agent h) (short : Short src) (honest : Honest src node h m)
    (handled : agent.handle me time src m = some (agent', out, events)) :
    Known node agent' h ∧ Sends node out h := by
  cases m with
  | gossip pairs =>
      cases handled
      exact ⟨known.accept honest.2 time, nofun⟩
  | ping target beat =>
      obtain ⟨rfl, lived⟩ := honest
      simp only [Agent.handle] at handled
      split at handled
      case isTrue =>
        cases handled
        refine ⟨known.named.accept (by simpa using ⟨short, lived⟩) time, fun dst m' mem => ?_⟩
        cases List.mem_singleton.mp mem
        exact ⟨short, rfl, known.lived⟩
      case isFalse =>
        cases handled
        exact ⟨known.named, nofun⟩
  | pong target beat =>
      obtain ⟨rfl, lived⟩ := honest
      simp only [Agent.handle] at handled
      split at handled
      case isTrue =>
        cases handled
        exact ⟨known.named.accept (by simpa using ⟨short, lived⟩) time, nofun⟩
      case isFalse =>
        cases handled
        exact ⟨known.named, nofun⟩
  | stop | tick | init => exact honest.elim

theorem Known.onTick (known : Known node agent h) (short : Short node) (time : UInt64) :
    Known node (agent.onTick time).1 (h ++ [⟨node, .tick time⟩]) ∧
      Sends node (agent.onTick time).2.1 (h ++ [⟨node, .tick time⟩]) := by
  have beats : Known node { agent with beat := agent.beat + 1 } (h ++ [⟨node, .tick time⟩]) := {
    beat := by
      have one : ticks [⟨node, .tick time⟩] node = 1 := by simp [ticks, Agent.Turn.isTick]
      rw [ticks_append, one, known.beat, UInt64.ofNat_add]
      rfl
    tag := known.tag
    peers := fun peer mem => (known.peers peer mem).append }
  rw [Agent.onTick]
  split
  case isTrue =>
    refine ⟨{ beats with }, ?_⟩
    intro dst m sent
    obtain ⟨peer, mem, same⟩ := List.mem_map.mp sent
    cases same
    refine ⟨(beats.peers peer mem).1, Agent.length_gossip_le .., ?_⟩
    exact Agent.gossip_keeps beats.peers (beats.own short)
  case isFalse => exact ⟨beats, nofun⟩

theorem Known.onInit (known : Known node agent h) {horizon tick period : UInt64}
    {pings : List String} (short : ∀ tag ∈ pings, Short tag) :
    Known node (agent.onInit horizon tick period pings).1
        (h ++ [⟨node, .init horizon tick period pings⟩]) ∧
      Sends node (agent.onInit horizon tick period pings).2
        (h ++ [⟨node, .init horizon tick period pings⟩]) := by
  constructor
  · exact {
      beat := by
        have none : ticks [⟨node, .init horizon tick period pings⟩] node = 0 := by
          simp [ticks, Agent.Turn.isTick]
        rw [ticks_append, none]
        exact known.beat
      tag := known.tag
      peers := fun peer mem => (known.peers peer mem).append }
  · intro dst m sent
    obtain ⟨_, mem, same⟩ := List.mem_map.mp sent
    cases same
    exact ⟨short _ mem, rfl, known.lived.append⟩

theorem Sends.sound (sends : Sends node out h) (short : Short node) :
    ∀ letter ∈ post node (out.map fun (tag, message) => (tag, message.toBytes)),
      Sound letter h := by
  intro letter mem
  obtain ⟨⟨dst, bytes⟩, inside, rfl⟩ := List.mem_map.mp mem
  obtain ⟨⟨target, m⟩, sent, same⟩ := List.mem_map.mp inside
  cases same
  obtain ⟨dst, honest⟩ := sends _ m sent
  exact ⟨short, dst, m, rfl, honest⟩

/-- What is known of the agents and of the letters is kept. -/
theorem inductive_known (me : String → String) :
    (protocol me).Inductive Valid (fun node state _ h => ∀ agent ∈ state, Known node agent h)
      fun letter _ h => Sound letter h where
  start node := by
    rintro _ ⟨⟩
    exact ⟨rfl, .inl rfl, nofun⟩
  keep known _ other agent here := (known agent here).append other
  last sound := ⟨sound.src, sound.dst, sound.message.imp fun _ more => ⟨more.1, more.2.append⟩⟩
  input := by
    intro node state letters h turn state' out valid known taken
    cases state with
    | none =>
        cases taken
        exact ⟨nofun, nofun⟩
    | some agent =>
        have known := known agent rfl
        cases turn with
        | bytes buf «from» time =>
            obtain rfl : buf = Message.stop.toBytes := valid
            cases taken
            exact ⟨nofun, nofun⟩
        | tick time =>
            cases taken
            obtain ⟨next, sends⟩ := known.onTick valid time
            exact ⟨fun _ here => Option.some.inj here ▸ next, sends.sound valid⟩
        | init horizon tick period pings =>
            cases taken
            obtain ⟨next, sends⟩ := @Known.onInit node agent h known horizon tick period pings
              valid.2
            exact ⟨fun _ here => Option.some.inj here ▸ next, sends.sound valid.1⟩
  handle := by
    intro letter state letters h time state' out known _ sound taken
    cases state with
    | none => cases taken
    | some agent =>
        have known := known agent rfl
        obtain ⟨m, bytes, honest⟩ := sound.message
        have read := fromBytes_toBytes (honest.fits sound.dst) []
        rw [List.append_nil, ← bytes] at read
        replace taken : some ((agent.receive (me letter.dst)
            (.bytes letter.message letter.src time)).1, _) = some (state', out) := taken
        rw [Agent.receive, read, Option.bind_some] at taken
        cases handled : agent.handle (me letter.dst) time letter.src m with
        | none =>
            rw [handled] at taken
            cases taken
            exact ⟨nofun, nofun⟩
        | some next =>
            rw [handled] at taken
            cases taken
            obtain ⟨kept, sends⟩ := known.handle sound.src honest handled
            exact ⟨fun _ here => Option.some.inj here ▸ kept, sends.sound sound.dst⟩

end Invariant

/-- **Rumours are not ahead.** In every run in which names are short, the own count of an agent is
the number of its ticks, its tag is its address or missing, and every beat that it knows of was
had by the peer with that tag, whichever way the news came. So the peer's own count is as large,
until that wraps around. -/
theorem rumours_lived {me : String → String} {net : Network String (Option Agent) (List UInt8)}
    {h : List (Given String Agent.Turn)}
    (run : (protocol me).machine.Run (fun _ _ label => label.Within Valid) net h)
    {node : String} {agent : Agent} (here : net.nodes node = some agent) :
    agent.beat = UInt64.ofNat (ticks h node) ∧ (agent.tag = "" ∨ agent.tag = node) ∧
      ∀ peer ∈ agent.peers, Lived h peer.tag peer.beat ∧
        ∀ other, net.nodes peer.tag = some other → peer.tag ≠ "" →
          ticks h peer.tag < 2 ^ 64 → peer.beat ≤ other.beat := by
  have known := ((inductive_known me).run run).1
  refine ⟨(known node agent here).beat, (known node agent here).tag, fun peer mem => ?_⟩
  have lived := ((known node agent here).peers peer mem).2
  refine ⟨lived, fun other there named small => ?_⟩
  obtain ⟨_, missing | rfl, early⟩ := lived
  · exact absurd missing named
  · rw [UInt64.le_iff_toNat_le, (known _ other there).beat, UInt64.toNat_ofNat',
      Nat.mod_eq_of_lt small]
    exact early

/-- `b` pings `a`, which gossips with it later on. -/
def chat : List (NetLabel String Agent.Turn UInt64) :=
  [.input "b" (.init 1000 100 1 ["a"]), .input "a" (.init 1000 100 1 []), .deliver 0 1,
    .deliver 1 2, .input "a" (.tick 3), .input "a" (.tick 4), .deliver 3 5]

/-- What `b` knows then. -/
def listener : Agent := ⟨"b", 0, [⟨"a", 2, 5⟩], [], 1000, 1, 100⟩

theorem rumours_lived_chat : ∃ net h,
    (protocol fun node => node).machine.Run (fun _ _ label => label.Within Valid) net h ∧
      net.nodes "b" = some listener ∧ Lived h "a" 2 := by
  have run := Machine.run_replay (protocol fun node => node).machine
    (fun _ _ label => label.Within Valid) chat (by decide)
  obtain ⟨_, _, known⟩ := @rumours_lived _ _ _ run "b" listener (by decide)
  exact ⟨_, _, run, by decide, (known ⟨"a", 2, 5⟩ (by decide)).1⟩

end Uppercut.Gossip
