import Uppercut.Core.Deliveries
import Uppercut.Remote.Client
import Uppercut.Remote.Server

/-!
# The poll loops go on

The client and the server poll their sockets when they receive a message that they then send to
themselves again. The runtime brings it back each time, so they poll again and again, as long as
the event loop runs, the actor is not stopped and no `receive` panics.
-/

namespace Uppercut

variable {config : SchedulerConfig} {name host : String} {start : Nat}
variable {path : (runtimeMachine config name host start).Path}

/-- What worker `index` calls between two times. -/
def Runtime.callsOf (path : (runtimeMachine config name host start).Path) (index n k : Nat) :
    List Call :=
  (List.range' (n + 1) (k - (n + 1))).filterMap fun m =>
    match path.label m with
    | some (.worker worker (.call call _)) => if worker = index then some call else none
    | _ => none

/-- Each `receive` of the actor at the tag comes to its end, and `reacts` describes what it calls
and whether it returns. -/
def Runtime.Behaves (path : (runtimeMachine config name host start).Path) (tag : Tag)
    (reacts : Envelope → List Call → Bool → Prop) : Prop :=
  ∀ n i actor envelope, Obs.called i tag actor (.receive envelope) ∈ path.seen n →
    ∃ k ok, n < k ∧ Obs.ended i tag actor (.receive envelope) ok ∈ path.seen k ∧
      reacts envelope (Runtime.callsOf path i n k) ok

/-- A call is made by a label of its worker. -/
theorem Runtime.mem_callsOf {index n k : Nat} {call : Call}
    (mem : call ∈ Runtime.callsOf path index n k) :
    ∃ m now, n < m ∧ m < k ∧ path.label m = some (.worker index (.call call now)) := by
  obtain ⟨m, inside, made⟩ := List.mem_filterMap.mp mem
  rw [List.mem_range'_1] at inside
  split at made
  case h_1 worker call' now known =>
    split at made
    case isTrue own =>
      cases made
      exact ⟨m, now, by omega, by omega, own ▸ known⟩
    case isFalse => cases made
  case h_2 => cases made

/-- As long as its worker loop runs, what an actor sends gets into the action channel. -/
theorem runtime_sends (meets : path.Meets Runtime.Steady) {n index now : Nat} {tag : Tag}
    {envelope : Envelope} (plain : '@' ∉ tag.toList)
    (known : path.label n = some (.worker index (.call (.send tag envelope) now))) :
    ∃ sender stamp, Obs.sent sender (.queue tag { envelope with stamp := stamp }) ∈
      path.seen n := by
  have action : (Call.send tag envelope).action (path.state n).fresh now =
      some (.queue tag { envelope with stamp := (path.state n).fresh }) := by
    rw [Call.action, sendAction, adjustRemoteAddress_plain plain]
  have transition := Runtime.step_transition (path.moves known)
  generalize path.seen n = seen at transition ⊢
  generalize path.state (n + 1) = next at transition
  cases transition with
  | posted calls =>
      cases calls with
      | @actor _ _ _ _ _ actor _ _ _ _ sends =>
          cases action.symm.trans sends
          exact ⟨.actor actor, _, List.mem_cons_self⟩
  | unposted calls closed =>
      cases calls with
      | actor known busy =>
          have running := Stage.running_of_callback busy
          rw [runtime_connected (meets.run n) (Transition.connected_of_known known running)]
            at closed
          cases closed
  | recorded _ _ stays => cases stays
  | worker _ move => cases move

/-- The actors of the remote part that poll. -/
inductive Poller where
  | client
  | server
  deriving DecidableEq

namespace Poller

def tag : Poller → Tag
  | client => clientTag
  | server => serverTag

def loop : Poller → Message
  | client => .clientLoop
  | server => .serverLoop

section React

variable (α σ : Type) [SocketAddr α] [ByteStream σ]

/-- What a `receive` of the actor may call, and whether it returns. -/
def Reacts : Poller → Envelope → List Call → Bool → Prop
  | client, envelope, calls, ok => ∃ (client : Client σ) (answers : ClientAnswers),
      calls = (client.receive α clientTag answers envelope).1 ∧
        ok = (client.receive α clientTag answers envelope).2.2.isSome
  | server, envelope, calls, ok => ∃ (server : Server) (polled : Option (List Polled)),
      calls = (server.receive serverTag polled envelope).1 ∧
        ok = (server.receive serverTag polled envelope).2.isSome

variable {α σ}

/-- A `receive` of the loop message that returns sends it again. -/
theorem Reacts.sends {poller : Poller} {envelope : Envelope} {calls : List Call}
    (reacts : poller.Reacts α σ envelope calls true) (loop : envelope.message = poller.loop) :
    ∃ again : Envelope, again.message = poller.loop ∧ .send poller.tag again ∈ calls := by
  cases poller with
  | client =>
      obtain ⟨client, answers, rfl, returns⟩ := reacts
      refine ⟨envelope, loop, ?_⟩
      have message : envelope.message = .clientLoop := loop
      simp only [Client.receive, message] at returns ⊢
      split at returns
      case h_1 => cases returns
      case h_2 =>
        split at returns
        case h_1 => cases returns
        case h_2 => exact List.mem_cons_self
  | server =>
      obtain ⟨server, polled, rfl, returns⟩ := reacts
      refine ⟨.of .serverLoop, rfl, ?_⟩
      have message : envelope.message = .serverLoop := loop
      simp only [Server.receive, message] at returns ⊢
      split at returns
      case h_1 => cases returns
      case h_2 =>
        split at returns
        case h_1 => cases returns
        case h_2 => exact List.mem_append_right _ List.mem_cons_self

end React

/-- The actor is called with its loop message. -/
def Polls (path : (runtimeMachine config name host start).Path) (poller : Poller) (n : Nat) :
    Prop :=
  ∃ i actor envelope, envelope.message = poller.loop ∧
    Obs.called i poller.tag actor (.receive envelope) ∈ path.seen n

/-- The event loop has ended, no instance is active at the tag, or a `receive` of the loop message
panics. -/
def Ends (path : (runtimeMachine config name host start).Path) (poller : Poller) (n : Nat) :
    Prop :=
  Runtime.Away path poller.tag n ∨ ∃ i actor envelope, envelope.message = poller.loop ∧
    Obs.ended i poller.tag actor (.receive envelope) false ∈ path.seen n

end Poller

/-- **The poll loops go on.** On every fair path on which neither `on_fail` nor `on_stop` panics,
the client or the server behaves as it is written, and its loop message was sent to it: it polls
again and again, unless it ends. -/
theorem poll_loops_go_on {α σ : Type} [SocketAddr α] [ByteStream σ] (fair : Runtime.Fair path)
    (meets : path.Meets Runtime.Steady) (threads : 0 < config.actorWorkerThreads)
    (poller : Poller) (behaves : Runtime.Behaves path poller.tag (poller.Reacts α σ)) {n : Nat}
    {sender : Sender} {envelope : Envelope} (loop : envelope.message = poller.loop)
    (sent : Obs.sent sender (.queue poller.tag envelope) ∈ path.seen n) :
    (∀ bound, ∃ k, bound ≤ k ∧ poller.Polls path k) ∨ ∃ k, n ≤ k ∧ poller.Ends path k := by
  by_cases ends : ∃ k, n ≤ k ∧ poller.Ends path k
  · exact .inr ends
  refine .inl fun bound => ?_
  have plain : '@' ∉ poller.tag.toList := by cases poller <;> decide
  have sends : ∃ sender envelope, envelope.message = poller.loop ∧
      Obs.sent sender (.queue poller.tag envelope) ∈ path.seen n := ⟨sender, envelope, loop, sent⟩
  apply LeadsTo.again (P := fun m => ∃ sender envelope, envelope.message = poller.loop ∧
    Obs.sent sender (.queue poller.tag envelope) ∈ path.seen m) ?_ sends bound
  rintro m later ⟨sender, envelope, loop, sent⟩
  obtain ⟨k, after, _, ended | ⟨_, ⟨l, last, i, actor, called⟩ | ⟨l, last, away, _⟩⟩⟩ :=
    fair.delivers meets threads (List.mem_filterMap.mpr ⟨_, sent, rfl⟩)
  · exact absurd ⟨k, later.trans after, .inl (.inl ended)⟩ ends
  · refine ⟨l, after.trans last, ⟨i, actor, envelope, loop, called⟩, ?_⟩
    obtain ⟨r, ok, done, ended, reacts⟩ := behaves l i actor envelope called
    cases ok with
    | false => exact absurd ⟨r, by omega, .inr ⟨i, actor, envelope, loop, ended⟩⟩ ends
    | true =>
        obtain ⟨again, loop, mem⟩ := reacts.sends loop
        obtain ⟨q, now, start, _, made⟩ := Runtime.mem_callsOf mem
        obtain ⟨sender, stamp, sent⟩ := runtime_sends meets plain made
        exact ⟨q, start, sender, { again with stamp := stamp }, loop, sent⟩
  · exact absurd ⟨l, by omega, .inl away⟩ ends

/-- The message of the client as the `stamp`-th call sends it. -/
def poll (stamp : Nat) : Envelope := { Envelope.of .clientLoop with stamp := stamp }

/-- The client polls twice, and the runtime is shut down meanwhile. -/
def rounds : List Label :=
  [Label.call 0 (.spawn clientTag) 0] ++ turn (.spawn clientTag ⟨0⟩) ++
  [Label.call 0 (.send clientTag (.of .clientLoop)) 0] ++ turn (.queue clientTag (poll 1)) ++
  [Label.worker 0 .take, .worker 0 (.call (.send clientTag (poll 1)) 0),
    .worker 0 (.finish true), .worker 0 .advance, .worker 0 .advance] ++
  turn (.queue clientTag (poll 2)) ++ turn (.return clientTag ⟨0⟩ true) ++
  [Label.worker 0 .take, .shutdown 0, .worker 0 (.call (.send clientTag (poll 2)) 0),
    .worker 0 (.finish true), .worker 0 .advance, .worker 0 .advance,
    .loop (.receive .shutdown true), .sendShutdown, .worker 0 .take, .drain, .drain, .finish]

theorem rounds_follows : (runtimeMachine { SchedulerConfig.default with actorWorkerThreads := 1 }
    "app" "host" 0).Follows rounds := by decide

/-- The client is called twice. -/
theorem rounds_called : ∀ n < rounds.length, ((Machine.restingPath rounds_follows).seen n).all
    (fun
      | .called i _ actor (.receive envelope) =>
          decide ((n, i, actor, envelope) ∈ [(8, 0, ⟨0⟩, poll 1), (19, 0, ⟨0⟩, poll 2)])
      | _ => true) = true := by decide

theorem rounds_behaves : Runtime.Behaves (Machine.restingPath rounds_follows) Poller.client.tag
    (Poller.client.Reacts Loopback Buffer) := by
  intro n i actor envelope called
  have inside : n < rounds.length := by
    by_contra past
    have rest : rounds[n]? = none := List.getElem?_eq_none_iff.mpr (Nat.le_of_not_lt past)
    rw [((Machine.restingPath rounds_follows).waits rest).2] at called
    cases called
  have known := of_decide_eq_true (List.all_eq_true.mp (rounds_called n inside) _ called)
  simp only [List.mem_cons, Prod.mk.injEq, List.not_mem_nil, or_false] at known
  obtain ⟨rfl, rfl, rfl, rfl⟩ | ⟨rfl, rfl, rfl, rfl⟩ := known
  · exact ⟨10, true, by decide, by decide, .new 0 64 64, ⟨some [], none⟩, by decide, by decide⟩
  · exact ⟨22, true, by decide, by decide, .new 0 64 64, ⟨some [], none⟩, by decide, by decide⟩

set_option maxRecDepth 2000 in
theorem poll_loops_go_on_rounds :
    Poller.client.Polls (Machine.restingPath rounds_follows) 19 ∧
      ((∀ bound, ∃ k, bound ≤ k ∧ Poller.client.Polls (Machine.restingPath rounds_follows) k) ∨
        ∃ k, 4 ≤ k ∧ Poller.client.Ends (Machine.restingPath rounds_follows) k) := by
  have fair := Runtime.fair_of_done rounds_follows (by decide) (by decide) (by decide)
  have meets := Runtime.steady_of_calm rounds_follows (by decide)
  have sent : Obs.sent (.thread 0) (.queue Poller.client.tag (poll 1)) ∈
      (Machine.restingPath rounds_follows).seen 4 := by decide
  exact ⟨⟨0, ⟨0⟩, poll 2, rfl, by decide⟩,
    poll_loops_go_on fair meets (by decide) .client rounds_behaves rfl sent⟩

end Uppercut
