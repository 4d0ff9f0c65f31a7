import Uppercut.Paxos.Agent

/-!
# What gets selected

Letters may be lost, arrive again and overtake each other. What an agent stores was proposed by an
agent that a client had asked for it, and a majority of the peers had promised before. An agent
proposes one value for each sequence number. So agents that only one proposer writes to agree.
-/

namespace Uppercut.Paxos

open Protocol

/-- The letter with a message. -/
def note (src dst : String) (message : Message) : Letter String (List UInt8) :=
  ⟨src, dst, message.toBytes⟩

theorem toBytes_inj {m m' : Message} : m.toBytes = m'.toBytes ↔ m = m' := by
  constructor
  · intro same
    have read := m.fromBytes_toBytes []
    rw [same, m'.fromBytes_toBytes []] at read
    exact (Option.some.inj read).symm
  · exact congrArg _

theorem note_mem_post {src dst node : String} {m : Message} {out : List (String × Message)} :
    note src dst m ∈ post node (Agent.encode out) ↔ src = node ∧ (dst, m) ∈ out := by
  rw [mem_post]
  apply and_congr_right'
  rw [Agent.encode, List.mem_map]
  constructor
  · rintro ⟨⟨target, m'⟩, mem, same⟩
    obtain ⟨rfl, bytes⟩ := Prod.mk.inj same
    rwa [← toBytes_inj.mp bytes]
  · exact fun mem => ⟨_, mem, rfl⟩

theorem eq_note_of_mem_post {node : String} {out : List (String × Message)}
    {letter : Letter String (List UInt8)} (mem : letter ∈ post node (Agent.encode out)) :
    ∃ dst m, (dst, m) ∈ out ∧ letter = note node dst m := by
  obtain ⟨⟨dst, bytes⟩, here, rfl⟩ := List.mem_map.mp mem
  obtain ⟨⟨target, m⟩, sent, same⟩ := List.mem_map.mp here
  cases same
  exact ⟨_, m, sent, rfl⟩

/-- A client has asked the agent at `node` for the value. -/
def AskedFor (h : List (Given String Input)) (node : String) (val : UInt64) : Prop :=
  ∃ client, ⟨node, .request client val⟩ ∈ h

def Asked (h : List (Given String Input)) (node : String) : Prop := ∃ val, AskedFor h node val

/-- More than half of the peers are in `P`. -/
def Majority (peers : List String) (P : String → Prop) : Prop :=
  ∃ members : List String, members.Nodup ∧ members ⊆ peers ∧
    peers.length / 2 < members.length ∧ ∀ member ∈ members, P member

theorem Majority.mono {peers : List String} {P Q : String → Prop} (majority : Majority peers P)
    (more : ∀ peer, P peer → Q peer) : Majority peers Q := by
  obtain ⟨members, nodup, inside, many, all⟩ := majority
  exact ⟨members, nodup, inside, many, fun member mem => more member (all member mem)⟩

/-- Two majorities have a member in common. -/
theorem Majority.meet {peers : List String} {P Q : String → Prop} (majority : Majority peers P)
    (majority' : Majority peers Q) : ∃ peer ∈ peers, P peer ∧ Q peer := by
  obtain ⟨members, nodup, inside, many, all⟩ := majority
  obtain ⟨members', nodup', inside', many', all'⟩ := majority'
  by_contra apart
  have disjoint : members.Disjoint members' := fun peer mem mem' =>
    apart ⟨peer, inside mem, all peer mem, all' peer mem'⟩
  have both : (members ++ members').Nodup := nodup.append nodup' disjoint
  have fits := (both.subperm (List.append_subset.mpr ⟨inside, inside'⟩)).length_le
  rw [List.length_append] at fits
  omega

section Invariant

variable (peers : List String)

/-- The agent at `node` has a promise from the peer. -/
def Promised (letters : List (Letter String (List UInt8))) (node peer : String) : Prop :=
  ∃ seq, note peer node (.promise seq) ∈ letters

/-- The peer has accepted a proposal of the agent at `node`. -/
def Accepted (letters : List (Letter String (List UInt8))) (node peer : String) : Prop :=
  ∃ seq val, note peer node (.accepted seq val) ∈ letters

/-- The agent at `node` has proposed a value. -/
def Proposed (letters : List (Letter String (List UInt8))) (node : String) (seq val : UInt64) :
    Prop :=
  ∃ peer, note node peer (.accept seq val) ∈ letters

/-- What is known of a message that was sent. -/
def Sound (src dst : String) (letters : List (Letter String (List UInt8)))
    (h : List (Given String Input)) : Message → Prop
  | .prepare _ => Asked h src ∧ dst ∈ peers
  | .promise _ => Asked h dst ∧ src ∈ peers
  | .accept _ val =>
      AskedFor h src val ∧ dst ∈ peers ∧ Majority peers (Promised letters src)
  | .accepted seq val => note dst src (.accept seq val) ∈ letters ∧ src ∈ peers
  | .selected seq val => ∃ proposer, Proposed letters proposer seq val ∧
      Majority peers (Accepted letters proposer)
  | .ignored _ | .rejected _ => True
  | .request _ | .empty => False

/-- What is known of the agent at `node`. -/
structure Local (node : String) (agent : Agent) (letters : List (Letter String (List UInt8)))
    (h : List (Given String Input)) : Prop where
  init : agent.peers = [] ∨ agent.peers = peers
  val : Asked h node → AskedFor h node agent.val
  promised : agent.promised.Nodup ∧
    ∀ peer ∈ agent.promised, peer ∈ peers ∧ Promised letters node peer
  accepted : agent.accepted.Nodup ∧
    ∀ peer ∈ agent.accepted, peer ∈ peers ∧ Accepted letters node peer
  bound : ∀ seq val, Proposed letters node seq val → seq ≤ agent.seqPromised
  single : ∀ seq val val', Proposed letters node seq val → Proposed letters node seq val' →
    val = val'
  stored : ∀ x ∈ agent.storage, ∃ peer, note peer node (.selected x.1 x.2) ∈ letters

variable {peers} {node src dst : String} {agent : Agent} {m : Message}
variable {letters new : List (Letter String (List UInt8))} {h seen : List (Given String Input)}

theorem AskedFor.append {val : UInt64} (asked : AskedFor h node val) :
    AskedFor (h ++ seen) node val :=
  asked.imp fun _ mem => List.mem_append_left _ mem

theorem Promised.append {peer : String} (promised : Promised letters node peer) :
    Promised (letters ++ new) node peer :=
  promised.imp fun _ mem => List.mem_append_left _ mem

theorem Accepted.append {peer : String} (accepted : Accepted letters node peer) :
    Accepted (letters ++ new) node peer :=
  accepted.imp fun _ more => more.imp fun _ mem => List.mem_append_left _ mem

theorem Proposed.append {seq val : UInt64} (proposed : Proposed letters node seq val) :
    Proposed (letters ++ new) node seq val :=
  proposed.imp fun _ mem => List.mem_append_left _ mem

theorem Sound.append (sound : Sound peers src dst letters h m) :
    Sound peers src dst (letters ++ new) (h ++ seen) m := by
  cases m with
  | prepare | promise => exact ⟨sound.1.imp fun _ asked => asked.append, sound.2⟩
  | accept => exact ⟨sound.1.append, sound.2.1, sound.2.2.mono fun _ => Promised.append⟩
  | accepted => exact ⟨List.mem_append_left _ sound.1, sound.2⟩
  | selected =>
      obtain ⟨proposer, proposed, majority⟩ := sound
      exact ⟨proposer, proposed.append, majority.mono fun _ => Accepted.append⟩
  | ignored | rejected => trivial
  | request | empty => exact sound

/-- New letters, none of them with a proposal of the agent. -/
theorem Local.append (known : Local peers node agent letters h)
    (quiet : ∀ dst seq val, note node dst (.accept seq val) ∉ new)
    (asked : Asked (h ++ seen) node → Asked h node) :
    Local peers node agent (letters ++ new) (h ++ seen) := by
  have old {seq val : UInt64} (proposed : Proposed (letters ++ new) node seq val) :
      Proposed letters node seq val :=
    proposed.imp fun dst mem => (List.mem_append.mp mem).resolve_right (quiet dst seq val)
  exact {
    init := known.init
    val := fun here => (known.val (asked here)).append
    promised := ⟨known.promised.1, fun peer mem =>
      (known.promised.2 peer mem).imp_right Promised.append⟩
    accepted := ⟨known.accepted.1, fun peer mem =>
      (known.accepted.2 peer mem).imp_right Accepted.append⟩
    bound := fun seq val proposed => known.bound seq val (old proposed)
    single := fun seq val val' proposed proposed' =>
      known.single seq val val' (old proposed) (old proposed')
    stored := fun x mem => (known.stored x mem).imp fun _ mem => List.mem_append_left _ mem }

/-- The agent sends letters, none of them with a proposal. -/
theorem Local.sends (known : Local peers node agent letters h) {out : List (String × Message)}
    (quiet : ∀ dst seq val, (dst, .accept seq val) ∉ out) :
    Local peers node agent (letters ++ post node (Agent.encode out)) h := by
  have more := @Local.append peers node agent letters (post node (Agent.encode out)) h [] known
    (fun dst seq val mem => quiet dst seq val (note_mem_post.mp mem).2)
    (fun asked => by rwa [List.append_nil] at asked)
  rwa [List.append_nil] at more

theorem Sound.sends (sound : Sound peers src dst letters h m) :
    Sound peers src dst (letters ++ new) h m := by
  have more := @Sound.append peers src dst m letters new h [] sound
  rwa [List.append_nil] at more

/-- The members of a set that is one larger. -/
theorem insert_spec {P : String → Prop} {set : List String} {member : String}
    (known : set.Nodup ∧ ∀ peer ∈ set, peer ∈ peers ∧ P peer) (inside : member ∈ peers)
    (more : P member) :
    (set.insert member).Nodup ∧ ∀ peer ∈ set.insert member, peer ∈ peers ∧ P peer := by
  refine ⟨known.1.insert, fun peer mem => ?_⟩
  obtain rfl | old := List.mem_insert_iff.mp mem
  · exact ⟨inside, more⟩
  · exact known.2 peer old

theorem majority_of_set {P : String → Prop} {set : List String}
    (known : set.Nodup ∧ ∀ peer ∈ set, peer ∈ peers ∧ P peer)
    (many : peers.length / 2 < set.length) : Majority peers P :=
  ⟨set, known.1, fun peer mem => (known.2 peer mem).1, many, fun peer mem => (known.2 peer mem).2⟩

theorem mem_broadcast {message : Message} :
    (dst, m) ∈ agent.broadcast message ↔ dst ∈ agent.peers ∧ m = message := by
  rw [Agent.broadcast, List.mem_map]
  constructor
  · rintro ⟨_, mem, same⟩
    cases same
    exact ⟨mem, rfl⟩
  · rintro ⟨mem, rfl⟩
    exact ⟨dst, mem, rfl⟩

/-- An agent that was told of its peers broadcasts to all of them, and another one to none. -/
theorem Local.told (known : Local peers node agent letters h) {peer : String}
    (mem : peer ∈ agent.peers) : agent.peers = peers :=
  known.init.resolve_left fun none => by
    rw [none] at mem
    cases mem

/-- An agent makes a new proposal. -/
theorem Local.propose (known : Local peers node agent letters h) {seq : UInt64}
    (newer : agent.seqPromised < seq) :
    Local peers node { agent with seqPromised := seq, promised := [] }
      (letters ++ post node (Agent.encode (agent.broadcast (.accept seq agent.val)))) h := by
  have own {seq' val : UInt64} (proposed : Proposed (letters ++
      post node (Agent.encode (agent.broadcast (.accept seq agent.val)))) node seq' val) :
      Proposed letters node seq' val ∨ seq' = seq ∧ val = agent.val := by
    obtain ⟨dst, mem⟩ := proposed
    obtain old | new := List.mem_append.mp mem
    · exact .inl ⟨dst, old⟩
    · obtain ⟨_, same⟩ := mem_broadcast.mp (note_mem_post.mp new).2
      exact .inr (Message.accept.inj same)
  have low {val : UInt64} (proposed : Proposed letters node seq val) : False :=
    absurd (known.bound seq val proposed) (UInt64.not_le.mpr newer)
  constructor
  · exact known.init
  · exact known.val
  · exact ⟨List.nodup_nil, nofun⟩
  · exact ⟨known.accepted.1, fun peer mem =>
      (known.accepted.2 peer mem).imp_right Accepted.append⟩
  · intro seq' val proposed
    obtain old | ⟨rfl, _⟩ := own proposed
    · exact UInt64.le_of_lt (UInt64.lt_of_le_of_lt (known.bound seq' val old) newer)
    · exact UInt64.le_refl _
  · intro seq' val val' proposed proposed'
    obtain old | ⟨rfl, rfl⟩ := own proposed
    · obtain old' | ⟨rfl, rfl⟩ := own proposed'
      · exact known.single seq' val val' old old'
      · exact (low old).elim
    · obtain old' | ⟨_, rfl⟩ := own proposed'
      · exact (low old').elim
      · rfl
  · exact fun x mem => (known.stored x mem).imp fun _ mem => List.mem_append_left _ mem

/-- What a letter leads to. -/
theorem Local.handles {agent' : Agent} {out : List (String × Message)}
    (known : Local peers node agent letters h) (here : note src node m ∈ letters)
    (sound : Sound peers src node letters h m) (handles : agent.Handles src m agent' out) :
    Local peers node agent' (letters ++ post node (Agent.encode out)) h ∧
      ∀ dst m', (dst, m') ∈ out →
        Sound peers node dst (letters ++ post node (Agent.encode out)) h m' := by
  cases handles with
  | asks => cases sound
  | @promises seq newer =>
      have kept := @Local.sends peers node agent letters h known [(src, .promise seq)] (by simp)
      refine ⟨⟨kept.init, kept.val, kept.promised, kept.accepted, kept.bound, kept.single,
        kept.stored⟩, fun dst m' mem => ?_⟩
      cases List.mem_singleton.mp mem
      exact sound
  | ignores | rejects =>
      refine ⟨known.sends (by simp), fun dst m' mem => ?_⟩
      cases List.mem_singleton.mp mem
      trivial
  | counts =>
      have kept := @Local.sends peers node agent letters h known [] (by simp)
      refine ⟨{ kept with promised := ?_ }, fun _ _ mem => absurd mem List.not_mem_nil⟩
      exact insert_spec kept.promised sound.2 (Promised.append ⟨_, here⟩)
  | @proposes seq newer quorum =>
      refine ⟨known.propose newer, fun dst m' mem => ?_⟩
      obtain ⟨peer, rfl⟩ := mem_broadcast.mp mem
      have told := known.told peer
      rw [told] at peer quorum
      have members := insert_spec known.promised sound.2 ⟨seq, here⟩
      exact ⟨known.val sound.1, peer,
        (majority_of_set members quorum).mono fun _ => Promised.append⟩
  | @accepts seq val =>
      refine ⟨known.sends (by simp), fun dst m' mem => ?_⟩
      cases List.mem_singleton.mp mem
      exact ⟨List.mem_append_left _ here, sound.2.1⟩
  | @tallies seq val =>
      have kept := @Local.sends peers node agent letters h known [] (by simp)
      refine ⟨{ kept with accepted := ?_ }, fun _ _ mem => absurd mem List.not_mem_nil⟩
      exact insert_spec kept.accepted sound.2 (Accepted.append ⟨seq, val, here⟩)
  | @selects seq val newer quorum =>
      have kept := @Local.sends peers node agent letters h known
        (agent.broadcast (.selected seq val)) fun dst seq' val' mem => by
          cases (mem_broadcast.mp mem).2
      refine ⟨{ kept with accepted := ⟨List.nodup_nil, nofun⟩ }, fun dst m' mem => ?_⟩
      obtain ⟨peer, rfl⟩ := mem_broadcast.mp mem
      rw [known.told peer] at quorum
      have members := insert_spec known.accepted sound.2 ⟨seq, val, here⟩
      exact ⟨node, Proposed.append ⟨src, sound.1⟩,
        (majority_of_set members quorum).mono fun _ => Accepted.append⟩
  | @stores seq val =>
      have kept := @Local.sends peers node agent letters h known
        (agent.clients.map fun tag => (tag, .selected seq val)) (by simp)
      refine ⟨{ kept with promised := ⟨List.nodup_nil, nofun⟩, stored := ?_ },
        fun dst m' mem => ?_⟩
      · intro x mem
        obtain old | new := List.mem_append.mp mem
        · exact kept.stored x old
        · cases List.mem_singleton.mp new
          exact ⟨src, List.mem_append_left _ here⟩
      · obtain ⟨_, _, same⟩ := List.mem_map.mp mem
        cases same
        exact sound.sends
  | rests => exact ⟨known.sends (by simp), fun _ _ mem => absurd mem List.not_mem_nil⟩

/-- What a client's request leads to. -/
theorem Local.asks (known : Local peers node agent letters h) (client : String) (val : UInt64) :
    Local peers node { agent with val := val, clients := agent.clients.insert client }
        (letters ++ post node (Agent.encode (agent.broadcast (.prepare (agent.seq + 1)))))
        (h ++ [⟨node, .request client val⟩]) ∧
      ∀ dst m', (dst, m') ∈ agent.broadcast (.prepare (agent.seq + 1)) →
        Sound peers node dst
          (letters ++ post node (Agent.encode (agent.broadcast (.prepare (agent.seq + 1)))))
          (h ++ [⟨node, .request client val⟩]) m' := by
  have asked : AskedFor (h ++ [⟨node, .request client val⟩]) node val :=
    ⟨client, List.mem_append_right _ List.mem_cons_self⟩
  have kept := @Local.sends peers node agent letters h known
    (agent.broadcast (.prepare (agent.seq + 1))) fun dst seq' val' mem => by
      cases (mem_broadcast.mp mem).2
  refine ⟨⟨kept.init, fun _ => asked, kept.promised, kept.accepted, kept.bound, kept.single,
    kept.stored⟩, fun dst m' mem => ?_⟩
  obtain ⟨peer, rfl⟩ := mem_broadcast.mp mem
  exact ⟨⟨val, asked⟩, known.told peer ▸ peer⟩

theorem local_default : Local peers node .default [] [] where
  init := .inl rfl
  val := by
    rintro ⟨_, _, mem⟩
    cases mem
  promised := ⟨List.nodup_nil, nofun⟩
  accepted := ⟨List.nodup_nil, nofun⟩
  bound := by
    rintro _ _ ⟨_, mem⟩
    cases mem
  single := by
    rintro _ _ _ ⟨_, mem⟩
    cases mem
  stored := nofun

/-- What is known of the agents and of the letters is kept. -/
theorem inductive_local :
    (protocol peers).Inductive (fun _ _ => True) (Local peers) fun letter letters h =>
      ∃ m, letter = note letter.src letter.dst m ∧
        Sound peers letter.src letter.dst letters h m where
  start _ := local_default
  keep known other unasked := by
    apply known.append
    · intro dst seq val mem
      exact other _ mem rfl
    · rintro ⟨val, client, mem⟩
      exact ⟨val, client, (List.mem_append.mp mem).resolve_right fun mem => unasked _ mem rfl⟩
  last := by
    rintro letter letters h new seen ⟨m, here, sound⟩
    exact ⟨m, here, sound.append⟩
  input := by
    intro node agent letters h given agent' out _ known taken
    cases given with
    | init =>
        cases taken
        have kept := @Local.append peers node agent letters [] h [⟨node, .init⟩] known (by simp) (by
          rintro ⟨val, client, mem⟩
          refine ⟨val, client, (List.mem_append.mp mem).resolve_right fun mem => ?_⟩
          cases List.mem_singleton.mp mem)
        exact ⟨{ kept with init := .inr rfl }, fun _ mem => absurd mem List.not_mem_nil⟩
    | request client val =>
        cases taken
        obtain ⟨kept, sent⟩ := known.asks client val
        refine ⟨kept, fun letter mem => ?_⟩
        obtain ⟨dst, m, inside, rfl⟩ := eq_note_of_mem_post mem
        exact ⟨m, rfl, sent dst m inside⟩
  handle := by
    rintro letter agent letters h around agent' out known mem ⟨m, here, sound⟩ taken
    rw [here] at mem
    have bytes : letter.message = m.toBytes ++ [] :=
      (congrArg Letter.message here).trans (List.append_nil _).symm
    replace taken : agent.receive letter.message letter.src = some (agent', out) := taken
    rw [Agent.receive, bytes, m.fromBytes_toBytes] at taken
    cases taken
    obtain ⟨kept, sent⟩ := known.handles mem sound (agent.handle_handles m letter.src)
    refine ⟨kept, fun new posted => ?_⟩
    obtain ⟨dst, m', inside, rfl⟩ := eq_note_of_mem_post posted
    exact ⟨m', rfl, sent dst m' inside⟩

end Invariant

section Runs

variable {peers : List String} {net : Network String Agent (List UInt8)}
variable {h : List (Given String Input)}

theorem reached_local (run : (protocol peers).machine.Reached net h) (node : String) :
    Local peers node (net.nodes node) net.letters h :=
  (inductive_local.run (run.mono fun _ _ => NetLabel.within_true _)).1 node

/-- What is known of each message that was sent. -/
theorem sound_of_mem (run : (protocol peers).machine.Reached net h) {src dst : String} {m : Message}
    (mem : note src dst m ∈ net.letters) : Sound peers src dst net.letters h m := by
  have known := inductive_local.run (run.mono fun _ _ => NetLabel.within_true _)
  obtain ⟨m', same, sound⟩ := known.2 _ mem
  cases toBytes_inj.mp (congrArg Letter.message same)
  exact sound

/-- An agent proposes one value for a sequence number. -/
theorem proposed_single (run : (protocol peers).machine.Reached net h) {proposer : String}
    {seq val val' : UInt64} (proposed : Proposed net.letters proposer seq val)
    (proposed' : Proposed net.letters proposer seq val') : val = val' :=
  (reached_local run proposer).single seq val val' proposed proposed'

theorem selected_of_stored (run : (protocol peers).machine.Reached net h) {node : String}
    {seq val : UInt64} (stored : (seq, val) ∈ (net.nodes node).storage) :
    ∃ src, note src node (.selected seq val) ∈ net.letters :=
  (reached_local run node).stored _ stored

/-- Where a selected value comes from. -/
theorem proposer_of_selected (run : (protocol peers).machine.Reached net h) {src dst : String}
    {seq val : UInt64} (selected : note src dst (.selected seq val) ∈ net.letters) :
    ∃ proposer, Proposed net.letters proposer seq val ∧ AskedFor h proposer val ∧
      Majority peers (Promised net.letters proposer) ∧
      Majority peers (Accepted net.letters proposer) := by
  obtain ⟨proposer, ⟨peer, proposed⟩, accepted⟩ := sound_of_mem run selected
  obtain ⟨asked, _, promised⟩ := sound_of_mem run proposed
  exact ⟨proposer, ⟨peer, proposed⟩, asked, promised, accepted⟩

/-- Where a stored value comes from. -/
theorem proposer_of_stored (run : (protocol peers).machine.Reached net h) {node : String}
    {seq val : UInt64} (stored : (seq, val) ∈ (net.nodes node).storage) :
    ∃ proposer, Proposed net.letters proposer seq val ∧ AskedFor h proposer val := by
  obtain ⟨_, selected⟩ := selected_of_stored run stored
  obtain ⟨proposer, proposed, asked, _⟩ := proposer_of_selected run selected
  exact ⟨proposer, proposed, asked⟩

/-- Agents agree on what one proposer was asked for. -/
theorem stored_single (run : (protocol peers).machine.Reached net h)
    (alone : ∀ p p' val val', AskedFor h p val → AskedFor h p' val' → p = p') {node node' : String}
    {seq val val' : UInt64} (stored : (seq, val) ∈ (net.nodes node).storage)
    (stored' : (seq, val') ∈ (net.nodes node').storage) : val = val' := by
  obtain ⟨p, proposed, asked⟩ := proposer_of_stored run stored
  obtain ⟨p', proposed', asked'⟩ := proposer_of_stored run stored'
  obtain rfl := alone p p' val val' asked asked'
  exact proposed_single run proposed proposed'

/-- **What is selected was proposed.** Whatever letters are lost, repeated or late: what an agent
has stored was announced to it. When an agent or a client is told that a value was selected for a
sequence number, one of the agents, the proposer, has proposed it for that number, and no other
value; a client has asked the proposer for it; a majority of the peers had promised to the
proposer, and a majority had accepted proposals of it. Any two agents that have made proposals
have a peer in common that promised to both. -/
theorem selected_proposed (run : (protocol peers).machine.Reached net h) :
    (∀ node seq val, (seq, val) ∈ (net.nodes node).storage →
      ∃ src, note src node (.selected seq val) ∈ net.letters) ∧
    (∀ src dst seq val, note src dst (.selected seq val) ∈ net.letters → ∃ proposer,
      Proposed net.letters proposer seq val ∧ AskedFor h proposer val ∧
      (∀ val', Proposed net.letters proposer seq val' → val' = val) ∧
      Majority peers (Promised net.letters proposer) ∧
      Majority peers (Accepted net.letters proposer)) ∧
    ∀ p p' seq seq' val val', Proposed net.letters p seq val →
      Proposed net.letters p' seq' val' →
      ∃ peer ∈ peers, Promised net.letters p peer ∧ Promised net.letters p' peer := by
  refine ⟨fun node seq val => selected_of_stored run, ?_, ?_⟩
  · intro src dst seq val selected
    obtain ⟨proposer, proposed, asked, promised, accepted⟩ := proposer_of_selected run selected
    exact ⟨proposer, proposed, asked, fun val' other => proposed_single run other proposed,
      promised, accepted⟩
  · rintro p p' seq seq' val val' ⟨dst, proposed⟩ ⟨dst', proposed'⟩
    obtain ⟨_, _, majority⟩ := sound_of_mem run proposed
    obtain ⟨_, _, majority'⟩ := sound_of_mem run proposed'
    exact majority.meet majority'

def trio : List String := ["a", "b", "c"]

def start : List (NetLabel String Input Unit) := trio.map fun node => .input node .init

/-- The letters at the places arrive. -/
def arrive (places : List Nat) : List (NetLabel String Input Unit) :=
  places.map fun index => .deliver index ()

/-- A client asks `a`, two of the peers promise and accept, and the third one hears of it. -/
def election : List (NetLabel String Input Unit) :=
  start ++ [.input "a" (.request "x" 7)] ++ arrive [0, 1, 3, 4, 5, 6, 8, 9, 10, 11, 12, 11]

theorem selected_proposed_election : ∃ net h, (protocol trio).machine.Reached net h ∧
    (1, 7) ∈ (net.nodes "c").storage ∧ ∃ proposer, Proposed net.letters proposer 1 7 ∧
      AskedFor h proposer 7 ∧ Majority trio (Accepted net.letters proposer) := by
  have run := Machine.run_replay (protocol trio).machine (fun _ _ _ => True) election (by decide)
  obtain ⟨_, selected, _⟩ := selected_proposed run
  obtain ⟨proposer, proposed, asked, _, _, accepted⟩ := selected "a" "x" 1 7 (by decide)
  exact ⟨_, _, run, by decide, proposer, proposed, asked, accepted⟩

/-- **One proposer, one history.** When clients ask one agent only, two agents that have stored
values for the same sequence number have stored the same value. -/
theorem storage_agrees (run : (protocol peers).machine.Reached net h) {proposer : String}
    (alone : ∀ node val, AskedFor h node val → node = proposer) {node node' : String}
    {seq val val' : UInt64} (stored : (seq, val) ∈ (net.nodes node).storage)
    (stored' : (seq, val') ∈ (net.nodes node').storage) : val = val' := by
  apply stored_single run _ stored stored'
  intro p p' val val' asked asked'
  rw [alone p val asked, alone p' val' asked']

theorem storage_agrees_election : ∃ net h, (protocol trio).machine.Reached net h ∧
    ∀ val, (1, val) ∈ (net.nodes "b").storage → 7 = val := by
  have run := Machine.run_replay (protocol trio).machine (fun _ _ _ => True) election (by decide)
  refine ⟨_, _, run, fun val stored => ?_⟩
  have alone : ∀ node val, AskedFor [⟨"a", .init⟩, ⟨"b", .init⟩, ⟨"c", .init⟩,
      ⟨"a", .request "x" 7⟩] node val → node = "a" := by
    rintro node val ⟨client, mem⟩
    have own : node = "a" ∧ client = "x" ∧ val = 7 := by simpa using mem
    exact own.1
  exact @storage_agrees trio _ _ run "a" alone "c" "b" 1 7 val (by decide) stored

/-- Two agents are asked. Each counts a promise for an earlier number and one for the number 2, and
proposes a value for it, which the others accept. -/
def duel : List (NetLabel String Input Unit) :=
  start ++ [.input "a" (.request "x" 7), .input "b" (.request "y" 9)] ++ arrive [0, 6, 4, 7] ++
  [.input "a" (.request "x" 7), .input "b" (.request "y" 9)] ++
  arrive [10, 14, 11, 18, 15, 17, 22, 23, 19, 21, 27, 28, 24, 29]

/-- An agent has then stored two values for one number. -/
theorem proposers_disagree : ∃ net h, (protocol trio).machine.Reached net h ∧
    (2, 7) ∈ (net.nodes "a").storage ∧ (2, 9) ∈ (net.nodes "a").storage :=
  ⟨_, _, Machine.run_replay (protocol trio).machine (fun _ _ _ => True) duel (by decide),
    by decide, by decide⟩

end Runs
end Uppercut.Paxos
