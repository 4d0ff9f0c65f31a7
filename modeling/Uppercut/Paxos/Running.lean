import Uppercut.Core.Nodes
import Uppercut.Core.Conservation
import Uppercut.Paxos.Selection

/-!
# Paxos on the runtime

When the peers are in one runtime, its instances are the nodes of the Paxos network. So what is
known of the network is known of them, with any number of workers and in any order of steps.
-/

namespace Uppercut.Paxos

namespace Agent

/-- 20 milliseconds. -/
def sendDelay : Nat := 20000000

/-- The calls that send messages. -/
def calls (me : Tag) (out : List (String × List UInt8)) : List Call :=
  out.map fun (target, buf) =>
    .delay target (((Envelope.of (.bytes buf)).withTo target).withFrom me) sendDelay

/-- `receive`. The message `other 0` stands for `Control::Init` with the peers. -/
def program (peers : List String) : Program Agent Unit where
  start := .default
  receive me agent _ envelope :=
    match envelope.message with
    | .bytes buf => (agent.receive buf envelope.from).map fun (agent, out) => (agent, calls me out)
    | .other 0 => some ({ agent with peers := peers }, [])
    | _ => some (agent, [])

end Agent

def Message.request? : Message → Option UInt64
  | .request val => some val
  | _ => none

variable {asked : Tag → UInt64 → Prop}

/-- What comes from threads: the peers, and requests for the values that a tag is `asked` for. -/
def Outside (asked : Tag → UInt64 → Prop) (tag : Tag) (_ : String) : Uppercut.Message → Prop
  | .other 0 => True
  | .bytes buf => ∃ val ∈ (Message.fromBytes buf).bind Message.request?, asked tag val
  | _ => False

instance [∀ tag val, Decidable (asked tag val)] (tag : Tag) («from» : String) :
    ∀ message, Decidable (Outside asked tag «from» message)
  | .other 0 => isTrue trivial
  | .bytes _ => inferInstanceAs (Decidable (∃ val ∈ _, _))
  | .other (_ + 1) | .clientLoop | .serverLoop | .work .. => isFalse id

/-- The inputs of the nodes. -/
def Input.Within (asked : Tag → UInt64 → Prop) (node : Tag) : Input → Prop
  | .init => True
  | .request _ val => asked node val

/-- What an agent sends goes out as letters. -/
theorem calls_lawful (outside : Tag → String → Uppercut.Message → Prop) (me : Tag)
    (out : List (String × List UInt8)) :
    ∀ call ∈ Agent.calls me out, call.Lawful outside me out := by
  intro call mem
  obtain ⟨⟨target, buf⟩, here, rfl⟩ := List.mem_map.mp mem
  exact .inr (.inr ⟨rfl, buf, rfl, here⟩)

theorem agents_play (peers : List String) (asked : Tag → UInt64 → Prop) :
    Plays (Outside asked) (Agent.program peers) (protocol peers) (Input.Within asked) where
  start := rfl
  letter := by
    intro tag agent _ envelope buf agent' calls bytes result
    simp only [Agent.program, bytes] at result
    obtain ⟨⟨next, out⟩, received, same⟩ := Option.map_eq_some_iff.mp result
    cases same
    exact ⟨out, received, calls_lawful _ tag out⟩
  input := by
    intro tag agent _ envelope agent' calls input result
    generalize message : envelope.message = m at input
    match m, input with
    | .other 0, _ =>
        simp only [Agent.program, message] at result
        cases result
        exact ⟨.init, [], trivial, rfl, nofun⟩
    | .bytes buf, ⟨val, known, own⟩ =>
        simp only [Agent.program, message] at result
        obtain ⟨⟨next, out⟩, received, same⟩ := Option.map_eq_some_iff.mp result
        cases same
        obtain ⟨m, decoded, asks⟩ := Option.bind_eq_some_iff.mp known
        cases m <;> cases asks
        rw [Agent.receive, decoded] at received
        exact ⟨.request envelope.from val, out, own, Option.some.inj received,
          calls_lawful _ tag out⟩

section Runs

variable {peers : List String} {config : SchedulerConfig} {name host : String} {start : Nat}
variable {s : Program.State Agent} {h : List Obs}

/-- **Agents on the runtime agree.** In every run in which threads spawn each tag once and send
peers and requests only, an instance stores only values that some agent may be asked for. When
only one agent may be asked, instances that have stored values for the same sequence number have
stored the same value. -/
theorem agents_agree (run : ((Agent.program peers).machine config name host start).Run
      (Threads (Outside asked)) s h) :
    (∀ x ∈ born h, ∀ seq val, (seq, val) ∈ (s.fields x.2).storage → ∃ node, asked node val) ∧
    ((∀ node node' val val', asked node val → asked node' val' → node = node') →
      ∀ x ∈ born h, ∀ x' ∈ born h, ∀ seq val val', (seq, val) ∈ (s.fields x.2).storage →
        (seq, val') ∈ (s.fields x'.2).storage → val = val') := by
  obtain ⟨net, g, played, mirrors⟩ := (agents_play peers asked).mirrors run
  have within {node : Tag} {val : UInt64} (known : AskedFor g node val) : asked node val := by
    obtain ⟨client, mem⟩ := known
    exact Protocol.given_within played _ mem
  constructor
  · intro x here seq val stored
    rw [← mirrors.nodes x here] at stored
    obtain ⟨proposer, _, known⟩ := proposer_of_stored played.reached stored
    exact ⟨proposer, within known⟩
  · intro alone x here x' here' seq val val' stored stored'
    rw [← mirrors.nodes x here] at stored
    rw [← mirrors.nodes x' here'] at stored'
    exact stored_single played.reached
      (fun p p' v v' known known' => alone p p' v v' (within known) (within known')) stored stored'

end Runs

/-! ## An election -/

/-- Only `a` is asked, and only for 7. -/
def AsksA (tag : Tag) (val : UInt64) : Prop := tag = "a" ∧ val = 7

instance (tag : Tag) (val : UInt64) : Decidable (AsksA tag val) :=
  inferInstanceAs (Decidable (_ ∧ _))

/-- A letter that is due at a time in milliseconds. -/
def timed (stamp time : Nat) (src dst : Tag) (m : Message) : Entry where
  «at» := time * 1000000
  tag := dst
  envelope := ⟨.bytes m.toBytes, src, dst, stamp⟩

/-- The agent receives an envelope and sends letters, the first one with the stamp `next`. -/
def reply (time next : Nat) (me : Tag) (actor : Actor) (out : List (Tag × Message)) :
    List Label :=
  [Label.worker 0 .take] ++
  ((Agent.calls me (Agent.encode out)).zipIdx.map fun (call, i) =>
    .worker 0 (.call call ((time + 2 * i) * 1000000))) ++
  [Label.worker 0 (.finish true), .worker 0 .advance, .worker 0 .advance] ++
  (out.zipIdx.flatMap fun ((dst, m), i) =>
    turn (.delay (timed (next + i) (time + 20 + 2 * i) me dst m))) ++
  turn (.return me actor true)

/-- A letter is due, and the agent replies. -/
def hop (stamp time : Nat) (src dst : Tag) (actor : Actor) (m : Message) (next : Nat)
    (out : List (Tag × Message)) : List Label :=
  [Label.loop .timeout, .loop (.clock (time * 1000000)), .loop (.release 0), .loop (.tick 0 0)] ++
  turn (.queue dst (timed stamp time src dst m).envelope) ++ reply time next dst actor out

/-- A thread sends a message. -/
def tell (stamp : Nat) (tag : Tag) (message : Uppercut.Message) : List Label :=
  [Label.call 0 (.send tag (.of message)) 0] ++
  turn (.queue tag { Envelope.of message with stamp := stamp })

/-- The agent `a` proposes a value, and both agents store it. -/
def ballot : List Label :=
  [Label.call 0 (.spawn "a") 0] ++ turn (.spawn "a" ⟨0⟩) ++
  [Label.call 0 (.spawn "b") 0] ++ turn (.spawn "b" ⟨1⟩) ++
  tell 2 "a" (.other 0) ++ reply 0 3 "a" ⟨0⟩ [] ++
  tell 3 "b" (.other 0) ++ reply 0 4 "b" ⟨1⟩ [] ++
  tell 4 "a" (.bytes (Message.request 7).toBytes) ++
  reply 0 5 "a" ⟨0⟩ [("a", .prepare 1), ("b", .prepare 1)] ++
  hop 5 20 "a" "a" ⟨0⟩ (.prepare 1) 7 [("a", .promise 1)] ++
  hop 6 22 "a" "b" ⟨1⟩ (.prepare 1) 8 [("a", .promise 1)] ++
  hop 7 40 "a" "a" ⟨0⟩ (.promise 1) 9 [] ++
  hop 8 42 "b" "a" ⟨0⟩ (.promise 1) 9 [("a", .accept 1 7), ("b", .accept 1 7)] ++
  hop 9 62 "a" "a" ⟨0⟩ (.accept 1 7) 11 [("a", .accepted 1 7)] ++
  hop 10 64 "a" "b" ⟨1⟩ (.accept 1 7) 12 [("a", .accepted 1 7)] ++
  hop 11 82 "a" "a" ⟨0⟩ (.accepted 1 7) 13 [] ++
  hop 12 84 "b" "a" ⟨0⟩ (.accepted 1 7) 13 [("a", .selected 1 7), ("b", .selected 1 7)] ++
  hop 13 104 "a" "a" ⟨0⟩ (.selected 1 7) 15 [("", .selected 1 7)] ++
  hop 14 106 "a" "b" ⟨1⟩ (.selected 1 7) 16 []

theorem ballot_run : ∃ s h, ((Agent.program ["a", "b"]).machine { SchedulerConfig.default with
      actorWorkerThreads := 1 } "app" "host" 0).Run (Threads (Outside AsksA)) s h ∧
    born h = [("a", ⟨0⟩), ("b", ⟨1⟩)] ∧
    (s.fields ⟨0⟩).storage = [(1, 7)] ∧ (s.fields ⟨1⟩).storage = [(1, 7)] := by
  have run := Machine.run_replay ((Agent.program ["a", "b"]).machine { SchedulerConfig.default with
      actorWorkerThreads := 1 } "app" "host" 0) (Threads (Outside AsksA))
    (ballot.map fun label => (label, ())) (by decide +kernel)
  exact ⟨_, _, run, by decide +kernel, by decide +kernel, by decide +kernel⟩

/-- Some run of the network ends with the same storages. -/
theorem runtime_plays_ballot : ∃ net g, (protocol ["a", "b"]).machine.Run
      (fun _ _ label => label.Within (Input.Within AsksA)) net g ∧
    (net.nodes "a").storage = [(1, 7)] ∧ (net.nodes "b").storage = [(1, 7)] := by
  obtain ⟨s, h, run, known, first, second⟩ := ballot_run
  obtain ⟨net, g, played, nodes, _⟩ := runtime_plays (agents_play ["a", "b"] AsksA) run
  refine ⟨net, g, played, ?_, ?_⟩
  · rw [nodes ("a", ⟨0⟩) (by rw [known]; decide)]
    exact first
  · rw [nodes ("b", ⟨1⟩) (by rw [known]; decide)]
    exact second

/-- What `b` has stored is what `a` has stored. -/
theorem agents_agree_ballot : ∃ s h, ((Agent.program ["a", "b"]).machine
      { SchedulerConfig.default with actorWorkerThreads := 1 } "app" "host" 0).Run
        (Threads (Outside AsksA)) s h ∧
    (1, 7) ∈ (s.fields ⟨0⟩).storage ∧ ∀ val, (1, val) ∈ (s.fields ⟨1⟩).storage → 7 = val := by
  obtain ⟨s, h, run, known, first, _⟩ := ballot_run
  have mine : (1, 7) ∈ (s.fields ⟨0⟩).storage := by
    rw [first]
    exact List.mem_singleton_self _
  refine ⟨s, h, run, mine, fun val stored => ?_⟩
  have alone : ∀ node node' val val', AsksA node val → AsksA node' val' → node = node' :=
    fun _ _ _ _ own own' => own.1.trans own'.1.symm
  have here : ("a", ⟨0⟩) ∈ born h := by
    rw [known]
    exact List.mem_cons_self
  have there : ("b", ⟨1⟩) ∈ born h := by
    rw [known]
    exact List.mem_cons_of_mem _ List.mem_cons_self
  exact (agents_agree run).2 alone _ here _ there 1 7 val mine stored

end Uppercut.Paxos
