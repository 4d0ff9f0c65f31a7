import Uppercut.Gossip.Agent
import Uppercut.Machine.History

/-!
# What an agent reports

The reports of an agent are its list of peers and its set `down`, once more: each peer is reported
as new when it is put on the list, and as out when it is put into the set, after it was new.
-/

namespace Uppercut.Gossip

def Event.new? : Event → Option String
  | .new tag => some tag
  | .out _ => none

def Event.out? : Event → Option String
  | .new _ => none
  | .out tag => some tag

theorem filterMap_new? (news outs : List String) :
    (news.map Event.new ++ outs.map Event.out).filterMap Event.new? = news := by
  simp [List.filterMap_map, Function.comp_def, Event.new?]

theorem filterMap_out? (news outs : List String) :
    (news.map Event.new ++ outs.map Event.out).filterMap Event.out? = outs := by
  simp [List.filterMap_map, Function.comp_def, Event.out?]

theorem mem_filterMap_out? {events : List Event} {tag : String} :
    tag ∈ events.filterMap Event.out? ↔ .out tag ∈ events := by
  rw [List.mem_filterMap]
  constructor
  · rintro ⟨event, mem, same⟩
    cases event with
    | new => cases same
    | out => exact Option.some.inj same ▸ mem
  · exact fun mem => ⟨_, mem, rfl⟩

theorem mem_filterMap_new? {events : List Event} {tag : String} :
    tag ∈ events.filterMap Event.new? ↔ .new tag ∈ events := by
  rw [List.mem_filterMap]
  constructor
  · rintro ⟨event, mem, same⟩
    cases event with
    | new => exact Option.some.inj same ▸ mem
    | out => cases same
  · exact fun mem => ⟨_, mem, rfl⟩

namespace Agent

variable {me tag : String} {time horizon beat : UInt64} {peers peers' : List Peer}
variable {pairs : List (String × UInt64)} {agent agent' : Agent} {events events' : List Event}

/-- The tags of its peers. -/
def tags (agent : Agent) : List String := agent.peers.map Peer.tag

/-- From one state to another with the reports. What is new comes first. -/
def Reports (agent agent' : Agent) (events : List Event) : Prop :=
  ∃ news outs, events = news.map .new ++ outs.map .out ∧
    agent'.tags = agent.tags ++ news ∧ agent'.down = agent.down ++ outs ∧
    (agent.tags.Nodup → agent'.tags.Nodup) ∧ (agent.down.Nodup → agent'.down.Nodup) ∧
    outs ⊆ agent'.tags

theorem Reports.same (tags : agent'.tags = agent.tags) (down : agent'.down = agent.down) :
    Reports agent agent' [] := by
  refine ⟨[], [], rfl, by simpa using tags, by simpa using down, ?_, ?_, List.nil_subset _⟩
  · exact fun nodup => tags ▸ nodup
  · exact fun nodup => down ▸ nodup

/-- The loop of `detect` finds the peers that are overdue, except those that are down. -/
theorem detectLoop_eq (time horizon : UInt64) (peers : List Peer) (down : List String) :
    ∃ outs, detectLoop time horizon peers down = (down ++ outs, outs.map .out) ∧
      (down.Nodup → (down ++ outs).Nodup) ∧ outs ⊆ peers.map Peer.tag ∧
      ∀ peer ∈ peers, peer.seen + horizon < time → peer.tag ∈ down ++ outs := by
  induction peers generalizing down with
  | nil => exact ⟨[], by simp [detectLoop]⟩
  | cons peer peers ih =>
      rw [detectLoop]
      split
      case isTrue late =>
        obtain ⟨outs, result, nodup, known, all⟩ := ih (down ++ [peer.tag])
        refine ⟨peer.tag :: outs, by simp [result], ?_, ?_, ?_⟩
        · intro before
          simpa using nodup (List.nodup_append.mpr ⟨before, by simp, by grind⟩)
        · exact List.cons_subset.mpr ⟨by simp, List.subset_cons_of_subset _ known⟩
        · intro other mem overdue
          obtain rfl | mem := List.mem_cons.mp mem
          · simp
          · simpa using all other mem overdue
      case isFalse fine =>
        obtain ⟨outs, result, nodup, known, all⟩ := ih down
        refine ⟨outs, result, nodup, List.subset_cons_of_subset _ known, ?_⟩
        intro other mem overdue
        obtain rfl | mem := List.mem_cons.mp mem
        · apply List.mem_append_left
          by_contra absent
          exact fine ⟨overdue, absent⟩
        · exact all other mem overdue

theorem hear_eq_none : hear time tag beat peers = none ↔ tag ∉ peers.map Peer.tag := by
  induction peers with
  | nil => simp [hear]
  | cons peer peers ih =>
      rw [hear]
      split
      case isTrue here => simp [here]
      case isFalse other =>
        rw [Option.map_eq_none_iff, ih, List.map_cons, List.mem_cons]
        simp [Ne.symm other]

theorem tags_of_hear (heard : hear time tag beat peers = some peers') :
    peers'.map Peer.tag = peers.map Peer.tag := by
  induction peers generalizing peers' with
  | nil => cases heard
  | cons peer peers ih =>
      rw [hear] at heard
      split at heard
      case isTrue =>
        cases heard
        rw [List.map_cons, List.map_cons]
        split <;> rfl
      case isFalse =>
        obtain ⟨rest, found, rfl⟩ := Option.map_eq_some_iff.mp heard
        rw [List.map_cons, List.map_cons, ih found]

/-- The loop of `accept` puts the peers that are new at the end. -/
theorem acceptLoop_eq (time : UInt64) (own : String) (pairs : List (String × UInt64))
    (peers : List Peer) :
    ∃ news, (acceptLoop time own pairs peers).2 = news.map .new ∧
      (acceptLoop time own pairs peers).1.map Peer.tag = peers.map Peer.tag ++ news ∧
      ((peers.map Peer.tag).Nodup → (peers.map Peer.tag ++ news).Nodup) := by
  induction pairs generalizing peers with
  | nil => exact ⟨[], by simp [acceptLoop]⟩
  | cons pair pairs ih =>
      obtain ⟨tag, beat⟩ := pair
      rw [acceptLoop]
      split
      case isTrue => exact ih peers
      case isFalse =>
        split
        case h_1 peers' heard =>
          obtain ⟨news, result⟩ := ih peers'
          rw [tags_of_hear heard] at result
          exact ⟨news, result⟩
        case h_2 unknown =>
          obtain ⟨news, told, tags, nodup⟩ := ih (peers ++ [⟨tag, beat, time⟩])
          rw [List.map_append, List.map_singleton] at tags nodup
          refine ⟨tag :: news, ?_, ?_, ?_⟩
          · rw [List.map_cons, ← told]
          · simpa using tags
          · intro before
            have fresh := hear_eq_none.mp unknown
            simpa using nodup (List.nodup_append.mpr ⟨before, by simp, by grind⟩)

theorem detect_reports (agent : Agent) (time : UInt64) :
    Reports agent (agent.detect time).1 (agent.detect time).2 := by
  obtain ⟨outs, result, nodup, known, _⟩ :=
    detectLoop_eq time agent.horizon agent.peers agent.down
  refine ⟨[], outs, ?_, ?_, ?_, id, ?_, known⟩
  · simp [detect, result]
  · simp [detect, tags]
  · simp [detect, result]
  · simpa [detect, result] using nodup

/-- Reports one after another, when the first are about new peers only. -/
theorem Reports.after_new {last : Agent} {news : List String} (next : Reports agent' last events')
    (told : events = news.map .new) (tags : agent'.tags = agent.tags ++ news)
    (down : agent'.down = agent.down) (nodup : agent.tags.Nodup → agent'.tags.Nodup) :
    Reports agent last (events ++ events') := by
  obtain ⟨more, outs, rfl, tags', down', nodup', nodupDown, known⟩ := next
  refine ⟨news ++ more, outs, ?_, ?_, ?_, fun before => nodup' (nodup before), ?_, known⟩
  · rw [told, List.map_append, List.append_assoc]
  · rw [tags', tags, List.append_assoc]
  · rw [down', down]
  · exact down ▸ nodupDown

theorem accept_reports (agent : Agent) (time : UInt64) (pairs : List (String × UInt64)) :
    Reports agent (agent.accept time pairs).1 (agent.accept time pairs).2 := by
  obtain ⟨news, told, tags, nodup⟩ := acceptLoop_eq time agent.tag pairs agent.peers
  have looked := detect_reports
    { agent with peers := (acceptLoop time agent.tag pairs agent.peers).1 } time
  refine looked.after_new told tags rfl ?_
  intro before
  rw [Agent.tags, tags]
  exact nodup before

theorem handle_reports {«from» : String} {m : Message} {out : List (String × Message)}
    (handled : agent.handle me time «from» m = some (agent', out, events)) :
    Reports agent agent' events := by
  cases m with
  | gossip pairs =>
      cases handled
      exact accept_reports ..
  | ping target beat | pong target beat =>
      simp only [handle] at handled
      split at handled
      case isTrue =>
        cases handled
        exact accept_reports { agent with tag := target } time [(«from», beat)]
      case isFalse =>
        cases handled
        exact .same rfl rfl
  | stop => cases handled
  | tick | init =>
      cases handled
      exact .same rfl rfl

theorem onTick_reports (agent : Agent) (time : UInt64) :
    Reports agent (agent.onTick time).1 (agent.onTick time).2.2 := by
  rw [onTick]
  split
  case isTrue => exact detect_reports { agent with beat := agent.beat + 1 } time
  case isFalse => exact .same rfl rfl

/-- A tick that looks leaves no overdue peer out of the set. -/
theorem down_of_overdue {peer : Peer} (looks : (agent.beat + 1) % agent.period = 0)
    (mem : peer ∈ agent.peers) (overdue : peer.seen + agent.horizon < time) :
    peer.tag ∈ (agent.onTick time).1.down := by
  obtain ⟨outs, result, _, _, all⟩ := detectLoop_eq time agent.horizon agent.peers agent.down
  rw [onTick, if_pos looks]
  simpa [detect, result] using all peer mem overdue

/-- A turn reports, or it is the last one. -/
theorem machine_step {state state' : Option Agent} {turn : Turn}
    (taken : (machine me).step state turn = some (state', events)) :
    state' = none ∧ events = [] ∨
      ∃ agent agent', state = some agent ∧ state' = some agent' ∧ Reports agent agent' events := by
  obtain ⟨agent, rfl, result⟩ := Option.map_eq_some_iff.mp taken
  cases turn with
  | bytes buf «from» time =>
      rw [receive] at result
      cases read : (Message.fromBytes buf).bind (agent.handle me time «from») with
      | none =>
          rw [read] at result
          cases result
          exact .inl ⟨rfl, rfl⟩
      | some next =>
          obtain ⟨agent', out, told⟩ := next
          rw [read] at result
          cases result
          obtain ⟨m, _, handled⟩ := Option.bind_eq_some_iff.mp read
          exact .inr ⟨agent, agent', rfl, rfl, handle_reports handled⟩
  | tick time =>
      cases result
      exact .inr ⟨agent, _, rfl, rfl, onTick_reports agent time⟩
  | init horizon tick period pings =>
      cases result
      exact .inr ⟨agent, _, rfl, rfl, .same rfl rfl⟩

end Agent

/-- A peer is out only when it was new before. -/
def Met (before : List Event) (event : Event) : Prop :=
  ∀ tag, event = .out tag → .new tag ∈ before

theorem alwaysFrom_met {before : List Event} {news outs : List String}
    (known : outs ⊆ before.filterMap Event.new? ++ news) :
    History.AlwaysFrom Met before (news.map .new ++ outs.map .out) := by
  rintro front _ back split tag rfl
  have mem : tag ∈ outs := by
    have here : Event.out tag ∈ news.map Event.new ++ outs.map Event.out := by simp [split]
    simpa using here
  obtain ⟨middle, rfl, _⟩ | ⟨middle, all, rest⟩ := List.append_eq_append_iff.mp split
  · obtain old | new := List.mem_append.mp (known mem)
    · exact List.mem_append_left _ (mem_filterMap_new?.mp old)
    · exact List.mem_append_right _ (List.mem_append_left _ (List.mem_map_of_mem new))
  · obtain - | ⟨event, middle⟩ := middle
    · obtain old | new := List.mem_append.mp (known mem)
      · exact List.mem_append_left _ (mem_filterMap_new?.mp old)
      · apply List.mem_append_right
        rw [List.append_nil] at all
        exact all ▸ List.mem_map_of_mem new
    · obtain ⟨rfl, _⟩ := List.cons.inj rest
      have here : Event.out tag ∈ news.map Event.new := by simp [all]
      simp at here

/-- What was reported of an agent that is in this state. -/
structure Told (agent : Agent) (h : List Event) : Prop where
  new : h.filterMap Event.new? = agent.tags
  out : h.filterMap Event.out? = agent.down
  nodup : agent.tags.Nodup
  nodupDown : agent.down.Nodup

theorem Told.step {agent agent' : Agent} {h events : List Event} (told : Told agent h)
    (reports : agent.Reports agent' events) :
    Told agent' (h ++ events) ∧ History.AlwaysFrom Met h events := by
  obtain ⟨news, outs, rfl, tags, down, nodup, nodupDown, known⟩ := reports
  refine ⟨⟨?_, ?_, nodup told.nodup, nodupDown told.nodupDown⟩, ?_⟩
  · rw [List.filterMap_append, told.new, filterMap_new?, tags]
  · rw [List.filterMap_append, told.out, filterMap_out?, down]
  · apply alwaysFrom_met
    rwa [told.new, ← tags]

/-- **Reports are made once.** In every run the peers that were reported as new are pairwise
distinct, and so are those that were reported as out, each of which was new before. As long as the
agent runs they are its peers, in the order of its list, and the set `down`, and the next tick that
looks leaves no overdue peer unreported. -/
theorem reported_once {me : String} {state : Option Agent} {h : List Event}
    (run : (Agent.machine me).Reached state h) :
    (h.filterMap Event.new?).Nodup ∧ (h.filterMap Event.out?).Nodup ∧ History.Always Met h ∧
      ∀ agent ∈ state, h.filterMap Event.new? = agent.tags ∧
        h.filterMap Event.out? = agent.down ∧
        ∀ time, (agent.beat + 1) % agent.period = 0 → ∀ peer ∈ agent.peers,
          peer.seen + agent.horizon < time → .out peer.tag ∈ h ++ (agent.onTick time).2.2 := by
  have told : (∀ agent ∈ state, Told agent h) ∧ (h.filterMap Event.new?).Nodup ∧
      (h.filterMap Event.out?).Nodup ∧ History.Always Met h := by
    induction run with
    | start =>
        refine ⟨?_, by simp, by simp, by simp⟩
        rintro _ ⟨⟩
        exact ⟨rfl, rfl, .nil, .nil⟩
    | step before _ taken ih =>
        obtain ⟨told, new, out, met⟩ := ih
        obtain ⟨rfl, rfl⟩ | ⟨agent, agent', rfl, rfl, reports⟩ := Agent.machine_step taken
        · rw [List.append_nil]
          exact ⟨nofun, new, out, met⟩
        · obtain ⟨next, more⟩ := (told agent rfl).step reports
          refine ⟨?_, next.new ▸ next.nodup, next.out ▸ next.nodupDown, ?_⟩
          · rintro _ ⟨⟩
            exact next
          · exact (History.always_append ..).mpr ⟨met, more⟩
  obtain ⟨told, new, out, met⟩ := told
  refine ⟨new, out, met, fun agent here => ?_⟩
  refine ⟨(told agent here).new, (told agent here).out, fun time looks peer mem overdue => ?_⟩
  have next := ((told agent here).step (agent.onTick_reports time)).1
  rw [← mem_filterMap_out?, next.out]
  exact Agent.down_of_overdue looks mem overdue

/-- An agent hears of `c` and then nothing more, and looks again and again. -/
def silence : List Agent.Turn :=
  [.init 10 1 1 ["c"], .bytes (Message.gossip [("c", 5)]).toBytes "a" 20, .tick 30, .tick 31,
    .tick 50]

theorem reported_once_silence : ∃ state h, (Agent.machine "b").Reached state h ∧
    h = [.new "c", .out "c"] ∧ (h.filterMap Event.out?).Nodup ∧ History.Always Met h := by
  have run := Machine.run_replay (Agent.machine "b") (fun _ _ _ => True) silence (by decide)
  obtain ⟨_, out, met, _⟩ := reported_once run
  exact ⟨_, _, run, by decide, out, met⟩

end Uppercut.Gossip
