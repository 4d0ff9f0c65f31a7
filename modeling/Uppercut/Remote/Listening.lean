import Uppercut.Machine.Run
import Uppercut.Remote.Server

/-!
# The server's connections

The server numbers the sockets that it accepts, and the number is part of the tag of the
connection actor. Work for a socket goes to the actor that was spawned for it, and to no other.
-/

namespace Uppercut

namespace Server

/-- The number of a tag can be read back, also when it has more than 12 digits. -/
theorem tag_inj (me : Tag) {i j : Nat} : tag me i = tag me j ↔ i = j := by
  constructor
  · intro same
    have digits := congrArg String.toList same
    simp only [tag, String.toList_append, List.append_cancel_left_eq,
      String.toList_ofList] at digits
    have numbers := congrArg (Nat.ofDigitChars 10 · 0) digits
    simpa [List.leftpad, Nat.ofDigitChars_append] using numbers
  · exact congrArg (tag me)

theorem tag_ne (me : Tag) (id : Nat) : tag me id ≠ me := by
  intro same
  have lengths := congrArg String.length same
  have hash : "#".length = 1 := rfl
  simp only [tag, String.length_append, hash] at lengths
  omega

/-- The tag of a connection is not taken for an address at another host. -/
theorem tag_plain {me : Tag} (plain : '@' ∉ me.toList) (id : Nat) : '@' ∉ (tag me id).toList := by
  intro mem
  simp only [tag, String.toList_append, String.toList_ofList, List.mem_append] at mem
  obtain (here | hash) | digit := mem
  · exact plain here
  · revert hash
    decide
  · obtain ⟨_, zero⟩ | digit := (List.mem_append.mp digit).imp_left List.mem_replicate.mp
    · cases zero
    · exact absurd (Nat.isDigit_of_mem_toDigits (by decide) (by decide) digit) (by decide)

/-- The tags that are spawned. -/
def spawned (calls : List Call) : List Tag :=
  calls.filterMap fun
    | .spawn tag => some tag
    | _ => none

@[simp] theorem spawned_append (calls more : List Call) :
    spawned (calls ++ more) = spawned calls ++ spawned more :=
  List.filterMap_append

theorem mem_spawned {calls : List Call} {tag : Tag} : tag ∈ spawned calls ↔ .spawn tag ∈ calls := by
  rw [spawned, List.mem_filterMap]
  constructor
  · rintro ⟨call, mem, eq⟩
    cases call <;> cases eq
    exact mem
  · exact fun mem => ⟨_, mem, rfl⟩

/-- The work that is sent: to whom, and which interests are ready. -/
def worked (calls : List Call) : List (Tag × Bool × Bool) :=
  calls.filterMap fun
    | .send tag envelope =>
        match envelope.message with
        | .work isReadable isWritable => some (tag, isReadable, isWritable)
        | _ => none
    | _ => none

@[simp] theorem worked_append (calls more : List Call) :
    worked (calls ++ more) = worked calls ++ worked more :=
  List.filterMap_append

/-- What a poll reports of accepted sockets: the number, and which interests are ready. -/
def sockets (events : List Polled) : List (Nat × Bool × Bool) :=
  events.filterMap fun
    | .socket id isReadable isWritable => some (id, isReadable, isWritable)
    | .listener _ => none

/-- The work for sockets. -/
def workFor (me : Tag) (sockets : List (Nat × Bool × Bool)) : List (Tag × Bool × Bool) :=
  sockets.map fun (id, ready) => (tag me id, ready)

/-- The events that a call of `receive` has to handle. It does not poll for other messages. -/
def found (envelope : Envelope) (polled : Option (List Polled)) : List Polled :=
  match envelope.message with
  | .serverLoop => polled.getD []
  | _ => []

/-- The server from its creation on. A call of `receive` finds polled events, unless `poll`
fails. After a panic it is gone. -/
def machine (me : Tag) : Machine (Option Server) (Envelope × Option (List Polled)) Call where
  start := some new
  step server turn := server.map fun server =>
    let (calls, next) := server.receive me turn.2 turn.1
    (next, calls)

section Step

variable {me : Tag} {server : Server} {next : Option Server} {calls : List Call}

/-- What the server does about events: it spawns connections with the next numbers, and sends
the work for the sockets, for all of them unless it panics. -/
structure Serves (me : Tag) (server : Server) (events : List Polled) (calls : List Call)
    (next : Option Server) : Prop where
  counts : ∃ n, spawned calls = (List.range' (server.counter + 1) n).map (tag me) ∧
    ∀ s ∈ next, s.counter = server.counter + n
  works : worked calls <+: workFor me (sockets events)
  all : next.isSome = true → worked calls = workFor me (sockets events)

theorem serves_nil : Serves me server [] [] (some server) where
  counts := ⟨0, rfl, fun s same => by cases same; rfl⟩
  works := List.prefix_refl _
  all _ := rfl

theorem Serves.append {middle : Server} {events later : List Polled} {more : List Call}
    (first : Serves me server events calls (some middle))
    (second : Serves me middle later more next) :
    Serves me server (events ++ later) (calls ++ more) next := by
  have split : workFor me (sockets (events ++ later)) =
      workFor me (sockets events) ++ workFor me (sockets later) := by
    rw [workFor, sockets, List.filterMap_append, List.map_append]
    rfl
  obtain ⟨n, spawns, counter⟩ := first.counts
  obtain ⟨k, spawns', counter'⟩ := second.counts
  have here := counter middle rfl
  refine ⟨⟨n + k, ?_, fun s same => ?_⟩, ?_, fun alive => ?_⟩
  · rw [spawned_append, spawns, spawns', here, ← List.map_append, Nat.add_right_comm,
      List.range'_append_1]
  · rw [counter' s same, here, Nat.add_assoc]
  · rw [worked_append, first.all rfl, split]
    exact (List.prefix_append_right_inj _).mpr second.works
  · rw [worked_append, first.all rfl, second.all alive, split]

/-- A panic leaves the calls that were made before. -/
theorem Serves.lost {middle : Server} {events later : List Polled}
    (serves : Serves me server events calls (some middle)) :
    Serves me server (events ++ later) calls none where
  counts := by
    obtain ⟨n, spawns, _⟩ := serves.counts
    exact ⟨n, spawns, nofun⟩
  works := by
    rw [workFor, sockets, List.filterMap_append, List.map_append]
    exact serves.works.trans (List.prefix_append _ _)
  all := nofun

theorem serves_spawn :
    Serves me server [] [.spawn (tag me (server.counter + 1))] (some ⟨server.counter + 1⟩) where
  counts := ⟨1, rfl, fun s same => by cases same; rfl⟩
  works := List.prefix_refl _
  all _ := rfl

theorem serves_work (id : Nat) (isReadable isWritable : Bool) :
    Serves me server [.socket id isReadable isWritable]
      [.send (tag me id) (.of (.work isReadable isWritable))] (some server) where
  counts := ⟨0, rfl, fun s same => by cases same; rfl⟩
  works := List.prefix_refl _
  all _ := rfl

theorem serves_loop : Serves me server [] [.send me (.of .serverLoop)] (some server) where
  counts := ⟨0, rfl, fun s same => by cases same; rfl⟩
  works := List.prefix_refl _
  all _ := rfl

/-- No work is sent for the listener. -/
theorem Serves.listener {events : List Polled} (serves : Serves me server events calls next)
    (registered : List Bool) : Serves me server (.listener registered :: events) calls next :=
  ⟨serves.counts, serves.works, serves.all⟩

theorem accept_serves (registered : List Bool) :
    Serves me server [] (accept me registered server).1 (accept me registered server).2 := by
  induction registered generalizing server with
  | nil => exact serves_nil
  | cons ok rest ih =>
      cases ok with
      | false => exact serves_nil.lost
      | true => exact serves_spawn.append ih

theorem handle_serves (events : List Polled) :
    Serves me server events (handle me events server).1 (handle me events server).2 := by
  induction events generalizing server with
  | nil => exact serves_nil
  | cons event events ih =>
      cases event with
      | listener registered =>
          have accepts := @accept_serves me server registered
          rw [handle]
          split
          · next calls accepted =>
            rw [accepted] at accepts
            exact ⟨accepts.counts, accepts.works.trans List.nil_prefix, nofun⟩
          · next calls server' accepted =>
            rw [accepted] at accepts
            exact (accepts.append ih).listener registered
      | socket id isReadable isWritable =>
          rw [handle]
          exact (serves_work id isReadable isWritable).append ih

theorem receive_serves (envelope : Envelope) (polled : Option (List Polled)) :
    Serves me server (found envelope polled) (server.receive me polled envelope).1
      (server.receive me polled envelope).2 := by
  unfold receive
  split
  case h_2 other =>
    have nothing : found envelope polled = [] := by
      unfold found
      split
      · next loop => exact absurd loop other
      · rfl
    exact nothing ▸ serves_nil
  case h_1 loop =>
    have all : found envelope polled = polled.getD [] := by rw [found, loop]
    rw [all]
    cases polled with
    | none => exact (@serves_nil me server).lost
    | some events =>
        have serves := @handle_serves me server events
        dsimp only [Option.getD_some]
        split
        · next calls handled =>
          rw [handled] at serves
          exact serves
        · next calls server' handled =>
          rw [handled] at serves
          exact List.append_nil events ▸ serves.append serves_loop

end Step

/-- A socket that was registered before the poll. -/
def Registered (server : Server) (id : Nat) : Prop := 1 ≤ id ∧ id ≤ server.counter

/-- What the next call of `receive` sends to connection actors: the work for the sockets that the
poll reports, in this order and once each, unless the server panics on the way. When they were
registered before, their actors were spawned `before`. -/
structure Attends (me : Tag) (before : List Call) (server : Server) (envelope : Envelope)
    (polled : Option (List Polled)) : Prop where
  works : worked (server.receive me polled envelope).1 <+:
    workFor me (sockets (found envelope polled))
  all : (server.receive me polled envelope).2.isSome = true →
    worked (server.receive me polled envelope).1 = workFor me (sockets (found envelope polled))
  spawned : ∀ id isReadable isWritable,
    (id, isReadable, isWritable) ∈ sockets (found envelope polled) →
      server.Registered id → .spawn (tag me id) ∈ before

section Runs

/-- A step of a server that is there is a call of `receive`. -/
theorem machine_step {me : Tag} {s t : Option Server} {turn : Envelope × Option (List Polled)}
    {seen : List Call} (taken : (machine me).step s turn = some (t, seen)) :
    ∃ server, s = some server ∧ t = (server.receive me turn.2 turn.1).2 ∧
      seen = (server.receive me turn.2 turn.1).1 := by
  obtain ⟨server, rfl, same⟩ := Option.map_eq_some_iff.mp taken
  cases same
  exact ⟨server, rfl, rfl, rfl⟩

variable {me : Tag} {server : Option Server} {h : List Call}

/-- The connections are numbered as they come. -/
theorem machine_spawned (run : (machine me).Reached server h) :
    ∃ n, spawned h = (List.range' 1 n).map (tag me) ∧ ∀ s ∈ server, s.counter = n := by
  induction run with
  | start => exact ⟨0, rfl, fun s same => by cases same; rfl⟩
  | @step s t h turn seen _ _ taken ih =>
      obtain ⟨current, rfl, rfl, rfl⟩ := machine_step taken
      obtain ⟨n, spawns, counter⟩ := ih
      obtain rfl := counter current rfl
      obtain ⟨k, more, counter'⟩ := (@receive_serves me current turn.1 turn.2).counts
      refine ⟨current.counter + k, ?_, counter'⟩
      rw [spawned_append, spawns, more, ← List.map_append, Nat.add_comm current.counter 1,
        List.range'_append_1]

/-- **Each socket has its own actor.** In every run of the server, whatever it is sent and
whatever it polls, the tags that it spawns are those of the numbers from 1 on, in this order. No
tag is spawned twice, and none is the server's own or one at another host. Whatever comes next,
the work for a socket that the poll reports is sent to the actor with its number, and no other
work is sent. When the socket was registered before, this actor was spawned. -/
theorem sockets_attended (run : (machine me).Reached server h) :
    (∃ n, spawned h = (List.range' 1 n).map (tag me) ∧ ∀ s ∈ server, s.counter = n) ∧
      (spawned h).Nodup ∧ (∀ tag' ∈ spawned h, tag' ≠ me) ∧
      ('@' ∉ me.toList → ∀ tag' ∈ spawned h, '@' ∉ tag'.toList) ∧
      ∀ s ∈ server, ∀ envelope polled, Attends me h s envelope polled := by
  obtain ⟨n, spawns, counter⟩ := machine_spawned run
  refine ⟨⟨n, spawns, counter⟩, ?_, ?_, ?_, ?_⟩
  · rw [spawns]
    exact List.Nodup.map (fun i j same => (tag_inj me).mp same) List.nodup_range'
  · rw [spawns]
    intro tag' mem
    obtain ⟨id, _, rfl⟩ := List.mem_map.mp mem
    exact tag_ne me id
  · rw [spawns]
    intro plain tag' mem
    obtain ⟨id, _, rfl⟩ := List.mem_map.mp mem
    exact tag_plain plain id
  · intro s here envelope polled
    have serves := @receive_serves me s envelope polled
    refine ⟨serves.works, serves.all, ?_⟩
    intro id isReadable isWritable _ known
    apply mem_spawned.mp
    rw [spawns]
    apply List.mem_map_of_mem
    have bound : id ≤ n := counter s here ▸ known.2
    exact List.mem_range'_1.mpr ⟨known.1, by omega⟩

/-- Two sockets are accepted, and one more. -/
def welcome : List (Envelope × Option (List Polled)) :=
  [(.of .serverLoop, some [.listener [true, true]]),
    (.of .serverLoop, some [.socket 2 true false, .listener [true]])]

/-- Then the first socket and the third are ready. -/
theorem sockets_attended_welcome :
    ∃ server h, (machine "$SERVER").Reached (some server) h ∧
      spawned h = ["$SERVER#000000000001", "$SERVER#000000000002", "$SERVER#000000000003"] ∧
      worked h = [("$SERVER#000000000002", true, false)] ∧ (spawned h).Nodup ∧
      Attends "$SERVER" h server (.of .serverLoop)
        (some [.socket 1 false true, .socket 3 true true]) := by
  have run := Machine.run_replay (machine "$SERVER") (fun _ _ _ => True) welcome (by decide)
  obtain ⟨_, nodup, _, _, attends⟩ := sockets_attended run
  exact ⟨_, _, run, by decide, by decide, nodup, attends _ rfl _ _⟩

end Runs

end Server
end Uppercut
