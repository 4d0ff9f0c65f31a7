import Uppercut.Core.Program
import Uppercut.Machine.Network

/-!
# Actors as nodes of a network

When the actors of one runtime run a program, and each tag is spawned once, they are the nodes of
a network: every run of the runtime, with any number of workers, in any order of steps, with
stops, panics and delays, is a run of the network. The envelopes that actors send each other are
its letters, and those that come from threads, or stand for a timer, are its inputs. Envelopes
that are for another host leave the network.
-/

namespace Uppercut

variable {σ ι ε : Type}

section Calls

variable (outside : Tag → String → Message → Prop)

/-- A call of the actor at a tag that sends `out`. -/
def Call.Lawful (tag : Tag) (out : List (Tag × List UInt8)) : Call → Prop
  | .send address envelope | .delay address envelope _ =>
      '@' ∈ address.toList ∨ outside address envelope.from envelope.message ∨
        envelope.from = tag ∧ ∃ buf, envelope.message = .bytes buf ∧ (address, buf) ∈ out
  | .spawn _ => False
  | .stop _ | .log _ | .metric _ _ => True

/-- The program of the actors does what the nodes of the protocol do. `outside` are the messages,
for a tag and from a tag, that are inputs. -/
structure Plays (prog : Program σ ε) (p : Protocol Tag σ (List UInt8) ι ε) (V : Tag → ι → Prop) :
    Prop where
  start : prog.start = p.start
  letter : ∀ {tag fields around envelope buf fields' calls}, envelope.message = .bytes buf →
    prog.receive tag fields around envelope = some (fields', calls) →
      ∃ out, p.handle tag fields around envelope.from buf = some (fields', out) ∧
        ∀ call ∈ calls, call.Lawful outside tag out
  input : ∀ {tag fields around envelope fields' calls},
    outside tag envelope.from envelope.message →
    prog.receive tag fields around envelope = some (fields', calls) →
      ∃ given out, V tag given ∧ p.input tag fields given = (fields', out) ∧
        ∀ call ∈ calls, call.Lawful outside tag out

/-- Threads send messages that are inputs, and spawn each tag once. No tag is the client's. -/
def Threads (_ : Program.State σ) (h : List Obs) : Label × ε → Prop
  | (.call _ (.send address envelope) _, _) | (.call _ (.delay address envelope _) _, _) =>
      '@' ∈ address.toList ∨ outside address envelope.from envelope.message
  | (.call _ (.spawn tag) _, _) => tag ≠ clientTag ∧ tag ∉ (born h).map Prod.fst
  | _ => True

instance [∀ tag «from» message, Decidable (outside tag «from» message)] (s : Program.State σ)
    (h : List Obs) : ∀ label : Label × ε, Decidable (Threads outside s h label)
  | (.call _ (.send ..) _, _) | (.call _ (.delay ..) _, _) =>
      inferInstanceAs (Decidable (_ ∨ _))
  | (.call _ (.spawn _) _, _) => inferInstanceAs (Decidable (_ ∧ _))
  | (.call _ (.stop _) _, _) | (.call _ (.log _) _, _) | (.call _ (.metric ..) _, _)
  | (.shutdown _, _) | (.dropRun, _) | (.worker .., _) | (.loop _, _) | (.sendShutdown, _)
  | (.drain, _) | (.finish, _) => isTrue trivial

variable {outside} {net : Network Tag σ (List UInt8)} {tag : Tag}

/-- An envelope with this sender and message may come to the tag. -/
def Comes (outside : Tag → String → Message → Prop) (net : Network Tag σ (List UInt8)) (tag : Tag)
    («from» : String) (message : Message) : Prop :=
  outside tag «from» message ∨ ∃ buf, message = .bytes buf ∧ ⟨«from», tag, buf⟩ ∈ net.letters

theorem Comes.mono {net' : Network Tag σ (List UInt8)} {«from» : String} {message : Message}
    (comes : Comes outside net tag «from» message) (more : net.letters ⊆ net'.letters) :
    Comes outside net' tag «from» message :=
  comes.imp_right fun ⟨buf, same, mem⟩ => ⟨buf, same, more mem⟩

/-- What a call sends may come to its tag. -/
def Call.Known (outside : Tag → String → Message → Prop) (net : Network Tag σ (List UInt8)) :
    Call → Prop
  | .send address envelope | .delay address envelope _ =>
      '@' ∈ address.toList ∨ Comes outside net address envelope.from envelope.message
  | .spawn _ => False
  | .stop _ | .log _ | .metric _ _ => True

theorem Call.Known.mono {net' : Network Tag σ (List UInt8)} {call : Call}
    (known : call.Known outside net) (more : net.letters ⊆ net'.letters) :
    call.Known outside net' := by
  cases call with
  | send | delay => exact known.imp_right fun comes => comes.mono more
  | spawn => exact known.elim
  | stop | log | metric => trivial

theorem Call.Lawful.known {out : List (Tag × List UInt8)} {call : Call}
    (lawful : call.Lawful outside tag out) (posted : Protocol.post tag out ⊆ net.letters) :
    call.Known outside net := by
  cases call with
  | send address envelope | delay address envelope =>
      obtain remote | input | ⟨rfl, buf, same, mem⟩ := lawful
      · exact .inl remote
      · exact .inr (.inl input)
      · exact .inr (.inr ⟨buf, same, posted (Protocol.mem_post.mpr ⟨rfl, mem⟩)⟩)
  | spawn => exact lawful.elim
  | stop | log | metric => trivial

/-- Where an envelope goes, and what of it stays. -/
theorem adjustRemoteAddress_comes {address : String} {envelope : Envelope} {stamp : Nat}
    (known : '@' ∈ address.toList ∨ Comes outside net address envelope.from envelope.message)
    (here : (adjustRemoteAddress address { envelope with stamp := stamp }).1 = tag) :
    tag = clientTag ∨ Comes outside net tag
      (adjustRemoteAddress address { envelope with stamp := stamp }).2.from
      (adjustRemoteAddress address { envelope with stamp := stamp }).2.message := by
  rw [adjustRemoteAddress] at here ⊢
  split
  case isTrue remote =>
    rw [if_pos remote] at here
    exact .inl here.symm
  case isFalse near =>
    rw [if_neg near] at here
    exact .inr (here ▸ known.resolve_left near)

/-- What an action that a call sends gives to a tag. -/
theorem Call.Known.given {call : Call} {fresh now : Nat} {sender : Sender} {action : Action}
    {envelope : Envelope} (known : call.Known outside net)
    (sends : call.action fresh now = some action)
    (mem : envelope ∈ Obs.givenTo tag (.sent sender action)) :
    tag = clientTag ∨ Comes outside net tag envelope.from envelope.message := by
  cases call with
  | send address envelope' =>
      cases sends
      obtain eq | ⟨_, eq, _⟩ := mem_givenTo_sent mem
      · obtain ⟨here, rfl⟩ := Action.queue.inj eq
        exact adjustRemoteAddress_comes known here
      · cases eq
  | delay address envelope' =>
      cases sends
      obtain eq | ⟨_, eq, here, rfl⟩ := mem_givenTo_sent mem
      · cases eq
      · cases eq
        exact adjustRemoteAddress_comes known here
  | spawn => exact known.elim
  | stop =>
      cases sends
      cases mem
  | log | metric => cases sends

end Calls

/-! ## The network of the actors -/

variable {outside : Tag → String → Message → Prop} {V : Tag → ι → Prop}
variable {prog : Program σ ε} {p : Protocol Tag σ (List UInt8) ι ε}

/-- The network of a state that was reached. -/
structure Mirrors (outside : Tag → String → Message → Prop) (start : σ) (s : Program.State σ)
    (h : List Obs) (net : Network Tag σ (List UInt8)) : Prop where
  nodes : ∀ x ∈ born h, net.nodes x.1 = s.fields x.2
  unborn : ∀ tag ∉ (born h).map Prod.fst, net.nodes tag = start
  fresh : ∀ actor ∉ (born h).map Prod.snd, s.fields actor = start
  tags : ((born h).map Prod.fst).Nodup
  actors : ((born h).map Prod.snd).Nodup
  young : ∀ x ∈ born h, x.2.id < s.runtime.fresh
  client : clientTag ∉ (born h).map Prod.fst
  comes : ∀ tag, ∀ envelope ∈ h.flatMap (Obs.givenTo tag),
    tag = clientTag ∨ Comes outside net tag envelope.from envelope.message
  agenda : ∀ i calls, s.agenda i = some calls → ∀ call ∈ calls, call.Known outside net

section Step

variable {s t : Program.State σ} {h seen : List Obs} {net net' : Network Tag σ (List UInt8)}
variable {label : Label} {around : ε} {start : σ}

/-- No instance is built. -/
theorem Mirrors.keep (mirrors : Mirrors outside start s h net) (unborn : born seen = [])
    (fresh : s.runtime.fresh ≤ t.runtime.fresh) (same : t.fields = s.fields)
    (agenda : ∀ i calls, t.agenda i = some calls → ∀ call ∈ calls, call.Known outside net)
    (comes : ∀ tag, ∀ envelope ∈ seen.flatMap (Obs.givenTo tag),
      tag = clientTag ∨ Comes outside net tag envelope.from envelope.message) :
    Mirrors outside start t (h ++ seen) net := by
  have past : born (h ++ seen) = born h := by rw [born_append, unborn, List.append_nil]
  constructor
  · rw [past, same]
    exact mirrors.nodes
  · rw [past]
    exact mirrors.unborn
  · rw [past, same]
    exact mirrors.fresh
  · rw [past]
    exact mirrors.tags
  · rw [past]
    exact mirrors.actors
  · rw [past]
    exact fun x mem => (mirrors.young x mem).trans_le fresh
  · rw [past]
    exact mirrors.client
  · intro tag envelope mem
    rw [List.flatMap_append] at mem
    exact (List.mem_append.mp mem).elim (mirrors.comes tag envelope) (comes tag envelope)
  · exact agenda

/-- An instance is built for a new tag. -/
theorem Mirrors.spawn (mirrors : Mirrors outside start s h net) {sender : Sender}
    (new : tag ∉ (born h).map Prod.fst) (ours : tag ≠ clientTag)
    (fresh : t.runtime.fresh = s.runtime.fresh + 1) (same : t.fields = s.fields)
    (agenda : ∀ i calls, t.agenda i = some calls → ∀ call ∈ calls, call.Known outside net) :
    Mirrors outside start t (h ++ [.sent sender (.spawn tag ⟨s.runtime.fresh⟩)]) net := by
  have grown : born (h ++ [.sent sender (.spawn tag ⟨s.runtime.fresh⟩)]) =
      born h ++ [(tag, ⟨s.runtime.fresh⟩)] := born_append ..
  have unknown : (⟨s.runtime.fresh⟩ : Actor) ∉ (born h).map Prod.snd := by
    intro mem
    obtain ⟨x, old, here⟩ := List.mem_map.mp mem
    have young := mirrors.young x old
    rw [here] at young
    exact Nat.lt_irrefl _ young
  constructor
  · rw [grown, same]
    intro x mem
    obtain old | last := List.mem_append.mp mem
    · exact mirrors.nodes x old
    · obtain rfl := List.mem_singleton.mp last
      rw [mirrors.unborn tag new, mirrors.fresh _ unknown]
  · rw [grown, List.map_append]
    exact fun other absent => mirrors.unborn other fun mem => absent (List.mem_append_left _ mem)
  · rw [grown, List.map_append, same]
    exact fun other absent => mirrors.fresh other fun mem => absent (List.mem_append_left _ mem)
  · rw [grown, List.map_append]
    exact mirrors.tags.append (List.nodup_singleton _) (by simpa using new)
  · rw [grown, List.map_append]
    exact mirrors.actors.append (List.nodup_singleton _) (by simpa using unknown)
  · rw [grown, fresh]
    intro x mem
    obtain old | last := List.mem_append.mp mem
    · exact (mirrors.young x old).trans (Nat.lt_succ_self _)
    · obtain rfl := List.mem_singleton.mp last
      exact Nat.lt_succ_self _
  · rw [grown, List.map_append]
    intro mem
    obtain old | last := List.mem_append.mp mem
    · exact mirrors.client old
    · exact ours (List.mem_singleton.mp last).symm
  · intro tag' envelope mem
    rw [List.flatMap_append] at mem
    obtain old | last := List.mem_append.mp mem
    · exact mirrors.comes tag' envelope old
    · simp [Obs.givenTo, Action.queuedTo, Action.delayedTo] at last
  · exact agenda

/-- A step that leaves the fields alone. -/
theorem Mirrors.quiet (mirrors : Mirrors outside start s h net)
    (transition : Transition s.runtime label t.runtime seen)
    (threads : Threads outside s h (label, around)) (same : t.fields = s.fields)
    (agenda : ∀ i calls, t.agenda i = some calls → ∀ call ∈ calls, call.Known outside net)
    (calls : ∀ index call now, label = .worker index (.call call now) →
      call.Known outside net) : Mirrors outside start t (h ++ seen) net := by
  obtain ⟨unborn, ungiven⟩ | ⟨sender, action, rfl, made, fresh⟩ := transition.builds
  · apply mirrors.keep unborn transition.fresh_le same agenda
    intro tag envelope mem
    rw [ungiven] at mem
    cases mem
  · have known (call : Call) {now : Nat} (known : call.Known outside net)
        (sends : call.action s.runtime.fresh now = some action) :
        Mirrors outside start t (h ++ [.sent sender action]) net := by
      apply mirrors.keep _ transition.fresh_le same agenda
      · intro tag envelope mem
        rw [List.flatMap_singleton] at mem
        exact known.given sends mem
      · cases call with
        | spawn => exact known.elim
        | send | delay | stop =>
            cases sends
            rfl
        | log | metric => cases sends
    cases made with
    | @actor index call now _ _ _ _ _ _ _ sends => exact known call (calls index call now rfl) sends
    | shutdown =>
        apply mirrors.keep rfl transition.fresh_le same agenda
        exact fun tag envelope mem => by cases mem
    | @thread _ call now _ _ sends =>
        cases call with
        | spawn tag =>
            cases sends
            exact mirrors.spawn threads.2 threads.1 fresh same agenda
        | send address envelope =>
            exact known (.send address envelope) (Or.imp_right .inl threads) sends
        | delay address envelope duration =>
            exact known (.delay address envelope duration) (Or.imp_right .inl threads) sends
        | stop address => exact known (.stop address) trivial sends
        | log | metric => cases sends

/-- A node and its instance go on, and the node sends letters. -/
theorem Mirrors.advance (mirrors : Mirrors outside start s h net) {actor : Actor}
    (here : (tag, actor) ∈ born h) (fields : σ) (out : List (Tag × List UInt8)) :
    Mirrors outside start ⟨s.runtime, Function.update s.fields actor fields, s.agenda⟩ h
      ⟨Function.update net.nodes tag fields, net.letters ++ Protocol.post tag out⟩ := by
  have more : net.letters ⊆ net.letters ++ Protocol.post tag out := List.subset_append_left ..
  constructor
  · intro x mem
    by_cases own : x.1 = tag
    · obtain rfl := List.inj_on_of_nodup_map mirrors.tags mem here own
      simp
    · have other : x.2 ≠ actor := fun same =>
        own (congrArg Prod.fst (List.inj_on_of_nodup_map mirrors.actors mem here same))
      simpa [own, other] using mirrors.nodes x mem
  · intro tag' absent
    have other : tag' ≠ tag := by
      rintro rfl
      exact absent (List.mem_map_of_mem (f := Prod.fst) here)
    simpa [other] using mirrors.unborn tag' absent
  · intro actor' absent
    have other : actor' ≠ actor := by
      rintro rfl
      exact absent (List.mem_map_of_mem (f := Prod.snd) here)
    simpa [other] using mirrors.fresh actor' absent
  · exact mirrors.tags
  · exact mirrors.actors
  · exact mirrors.young
  · exact mirrors.client
  · exact fun tag' envelope mem =>
      (mirrors.comes tag' envelope mem).imp_right fun comes => comes.mono more
  · exact fun i calls known call mem => (mirrors.agenda i calls known call mem).mono more

/-- What an instance receives was sent to its node or is an input for it. -/
theorem Mirrors.received (mirrors : Mirrors outside start s h net)
    {config : SchedulerConfig} {name host : String} {time : Nat}
    (run : (runtimeMachine config name host time).Reached s.runtime h)
    (taken : s.runtime.step label = some (t.runtime, seen)) {i index : Nat}
    (takes : label = .worker index .take) {actor : Actor} {envelope : Envelope}
    (called : Obs.called i tag actor (.receive envelope) ∈ seen) :
    (tag, actor) ∈ born h ∧ Comes outside net tag envelope.from envelope.message := by
  have after := Machine.Run.step run trivial taken
  have called := List.mem_append_right h called
  have built := born_of_called after called
  have given := received_given after (mem_receives called)
  obtain ⟨unborn, ungiven⟩ | ⟨_, _, _, made, _⟩ := (Runtime.step_transition taken).builds
  · rw [born_append, unborn, List.append_nil] at built
    rw [List.flatMap_append, ungiven, List.append_nil] at given
    have ours : tag ≠ clientTag := by
      rintro rfl
      exact mirrors.client (List.mem_map_of_mem (f := Prod.fst) built)
    exact ⟨built, (mirrors.comes tag envelope given).resolve_left ours⟩
  · rw [takes] at made
    cases made

end Step

/-- What the network does when an instance receives an envelope. -/
theorem Plays.answers {outside : Tag → String → Message → Prop} (plays : Plays outside prog p V)
    {net : Network Tag σ (List UInt8)} {tag : Tag} {around : ε} {envelope : Envelope} {fields : σ}
    {calls : List Call} (comes : Comes outside net tag envelope.from envelope.message)
    (result : prog.receive tag (net.nodes tag) around envelope = some (fields, calls)) :
    ∃ label out given, label.Within V ∧ p.step net label =
        some (⟨Function.update net.nodes tag fields, net.letters ++ Protocol.post tag out⟩, given) ∧
      ∀ call ∈ calls, call.Lawful outside tag out := by
  obtain input | ⟨buf, same, mem⟩ := comes
  · obtain ⟨given, out, valid, answer, lawful⟩ := plays.input input result
    refine ⟨.input tag given, out, [⟨tag, given⟩], valid, ?_, lawful⟩
    rw [Protocol.step, answer]
  · obtain ⟨out, answer, lawful⟩ := plays.letter same result
    obtain ⟨index, found⟩ := List.mem_iff_getElem?.mp mem
    refine ⟨.deliver index around, out, [], trivial, ?_, lawful⟩
    simp only [Protocol.step, found, answer, Option.map_some]

/-- Each run of the runtime is one of the network. -/
theorem Plays.mirrors {config : SchedulerConfig} {name host : String} {start : Nat}
    {s : Program.State σ} {h : List Obs} (plays : Plays outside prog p V)
    (run : (prog.machine config name host start).Run (Threads outside) s h) :
    ∃ net g, p.machine.Run (fun _ _ label => label.Within V) net g ∧
      Mirrors outside p.start s h net := by
  induction run with
  | start =>
      refine ⟨_, _, .start, ⟨nofun, fun _ _ => rfl, fun _ _ => plays.start, .nil, .nil, nofun,
        nofun, nofun, ?_⟩⟩
      rintro i _ ⟨⟩
      exact nofun
  | @step s t h label seen before threads taken ih =>
      obtain ⟨label, around⟩ := label
      obtain ⟨net, g, played, mirrors⟩ := ih
      obtain ⟨went, move⟩ := Program.step_move taken
      have transition := Runtime.step_transition went
      -- A callback that begins or goes on leaves the other agendas as they are.
      have agenda {net' : Network Tag σ (List UInt8)} {index : Nat} {next : Option (List Call)}
          (more : net.letters ⊆ net'.letters) (mine : ∀ calls, next = some calls →
            ∀ call ∈ calls, call.Known outside net') (i : Nat) (calls : List Call)
          (known : Function.update s.agenda index next i = some calls) :
          ∀ call ∈ calls, call.Known outside net' := by
        by_cases own : i = index
        · obtain rfl := own
          rw [Function.update_self] at known
          exact mine calls known
        · rw [Function.update_of_ne own] at known
          exact fun call mem => (mirrors.agenda i calls known call mem).mono more
      generalize fields : t.fields = fields at move
      generalize plans : t.agenda = plans at move
      cases move with
      | @receives index _ tag actor envelope fields' calls takes called result =>
          obtain ⟨built, comes⟩ := mirrors.received (Program.runtime_run before) went takes called
          rw [← mirrors.nodes _ built] at result
          obtain ⟨label', out, given, valid, answer, lawful⟩ := plays.answers comes result
          have mine : ∀ calls', some calls = some calls' → ∀ call ∈ calls', call.Known outside
              ⟨Function.update net.nodes tag fields', net.letters ++ Protocol.post tag out⟩ := by
            rintro _ ⟨⟩ call mem
            exact (lawful call mem).known (List.subset_append_right ..)
          refine ⟨_, _, played.step valid answer, ?_⟩
          apply (mirrors.advance built fields' out).quiet transition threads fields
          · exact fun i calls' known =>
              agenda (List.subset_append_left ..) mine i calls' (plans ▸ known)
          · rintro _ _ _ rfl
            cases takes
      | panics takes =>
          refine ⟨net, g, played, mirrors.quiet transition threads fields ?_ ?_⟩
          · refine fun i calls known => agenda (List.Subset.refl _) ?_ i calls (plans ▸ known)
            rintro _ ⟨⟩
          · rintro _ _ _ rfl
            cases takes
      | @calls index call now rest makes next =>
          have mine := mirrors.agenda index _ next
          refine ⟨net, g, played, mirrors.quiet transition threads fields ?_ ?_⟩
          · refine fun i calls known => agenda (List.Subset.refl _) ?_ i calls (plans ▸ known)
            rintro _ ⟨⟩ call mem
            exact mine call (List.mem_cons_of_mem _ mem)
          · rintro _ _ _ rfl
            cases makes
            exact mine call List.mem_cons_self
      | rests quiet =>
          refine ⟨net, g, played, mirrors.quiet transition threads fields ?_ ?_⟩
          · refine fun i calls known => agenda (List.Subset.refl _) ?_ i calls (plans ▸ known)
            rintro _ ⟨⟩
            exact nofun
          · exact fun i call now makes => absurd makes (quiet i call now)
      | other quiet =>
          refine ⟨net, g, played, mirrors.quiet transition threads fields ?_ ?_⟩
          · exact fun i calls known => mirrors.agenda i calls (plans ▸ known)
          · exact fun i call now makes => absurd makes (quiet i call now)

/-- **The actors are the nodes of a network.** In every run of the runtime with a program that
plays a protocol, in which threads send inputs and spawn each tag once, the fields of each
instance are those of its node in some run of the network, and what was sent to a tag is an input
or a letter of that run. -/
theorem runtime_plays {config : SchedulerConfig} {name host : String} {start : Nat}
    {s : Program.State σ} {h : List Obs} (plays : Plays outside prog p V)
    (run : (prog.machine config name host start).Run (Threads outside) s h) :
    ∃ net g, p.machine.Run (fun _ _ label => label.Within V) net g ∧
      (∀ x ∈ born h, net.nodes x.1 = s.fields x.2) ∧
      ∀ tag, ∀ envelope ∈ h.flatMap (Obs.givenTo tag),
        tag = clientTag ∨ Comes outside net tag envelope.from envelope.message := by
  obtain ⟨net, g, played, mirrors⟩ := plays.mirrors run
  exact ⟨net, g, played, mirrors.nodes, mirrors.comes⟩

end Uppercut
