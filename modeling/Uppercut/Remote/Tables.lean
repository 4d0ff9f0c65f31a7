import Uppercut.Remote.Client

/-!
# The tables of the client

`connections` and `destinations` describe the same connections, which are the registered
sockets. So the lookups of `poll` and `put` succeed, unless a host was connected whose text
is not the text of its address: its id is not filed under the text that is looked up next.
-/

namespace Uppercut

open ByteStream SocketAddr

/-- The connection is open after the event. -/
def ClientEvent.keepsOpen (event : ClientEvent) : Bool :=
  if event.isWritable then !event.isWriteClosed
  else if event.isReadable then !event.isReadClosed
  else true

namespace Client

variable {σ : Type}

namespace Connection

variable [ByteStream σ]

theorem send_frame (failsAfter : Option Nat) (conn : Connection σ) :
    (conn.send failsAfter).2.target = conn.target ∧
      (conn.send failsAfter).2.socket = conn.socket := by
  unfold send
  dsimp only
  split
  · split <;> exact ⟨rfl, rfl⟩
  · exact ⟨rfl, rfl⟩

/-- Reading leaves what identifies the connection and what is to be sent. -/
theorem recv_frame (answers : List (Option (List UInt8))) (conn : Connection σ) :
    (conn.recv answers).2.target = conn.target ∧ (conn.recv answers).2.socket = conn.socket ∧
      (conn.recv answers).2.sendBuf = conn.sendBuf := by
  induction answers generalizing conn with
  | nil => exact ⟨rfl, rfl, rfl⟩
  | cons answer answers ih =>
      unfold recv
      split
      · split
        · exact ⟨rfl, rfl, rfl⟩
        · exact ⟨rfl, rfl, rfl⟩
        · exact ih _
      · exact ⟨rfl, rfl, rfl⟩

theorem readable_frame (event : ClientEvent) (conn : Connection σ) :
    (conn.readable event).target = conn.target ∧ (conn.readable event).socket = conn.socket ∧
      (conn.readable event).sendBuf = conn.sendBuf := by
  unfold readable
  split
  · exact recv_frame _ conn
  · exact ⟨rfl, rfl, rfl⟩

theorem serve_target (event : ClientEvent) (conn : Connection σ) :
    ((conn.readable event).writable event).2.target = conn.target := by
  unfold writable
  split
  · show (Connection.send event.failsAfter _).2.target = conn.target
    rw [(send_frame _ _).1]
    exact (readable_frame event conn).1
  · exact (readable_frame event conn).1

theorem serve_socket (event : ClientEvent) (conn : Connection σ) :
    ((conn.readable event).writable event).2.socket = conn.socket := by
  unfold writable
  split
  · show (Connection.send event.failsAfter _).2.socket = conn.socket
    rw [(send_frame _ _).2]
    exact (readable_frame event conn).2.1
  · exact (readable_frame event conn).2.1

theorem serve_isOpen {conn : Connection σ} (opened : conn.isOpen = true) (event : ClientEvent) :
    ((conn.readable event).writable event).2.isOpen = event.keepsOpen := by
  unfold writable readable ClientEvent.keepsOpen
  split
  · rfl
  · split
    · rfl
    · exact opened

end Connection

/-- Both maps and the registry describe the same connections, which are open. -/
structure Tables (client : Client σ) : Prop where
  inverse : ∀ addr id, client.destinations addr = some id ↔
    ∃ conn, client.connections id = some conn ∧ conn.target = addr
  bounded : ∀ id conn, client.connections id = some conn → id ≤ client.counter
  registered : ∀ id, id ∈ client.registry ↔ (client.connections id).isSome = true
  distinct : client.registry.Nodup
  sockets : ∀ id conn, client.connections id = some conn → conn.socket = id
  opened : ∀ id conn, client.connections id = some conn → conn.isOpen = true

variable {client next : Client σ}

theorem tables_new (responsePort : UInt16) (recvBufferSize sendBufferSize : Nat) :
    (new responsePort recvBufferSize sendBufferSize : Client σ).Tables where
  inverse _ _ := ⟨nofun, fun ⟨_, known, _⟩ => nomatch known⟩
  bounded _ _ := nofun
  registered _ := ⟨nofun, nofun⟩
  distinct := List.nodup_nil
  sockets _ _ := nofun
  opened _ _ := nofun

/-- The table of destinations is the inverse of the table of connections. -/
theorem Tables.inverse_target (tables : client.Tables) :
    Table.Inverse client.connections client.destinations Connection.target :=
  tables.inverse

/-- A connection is replaced by one with the same target and socket. -/
theorem Tables.replace (tables : client.Tables) {id : Nat} {conn conn' : Connection σ}
    (known : client.connections id = some conn) (target : conn'.target = conn.target)
    (socket : conn'.socket = conn.socket) (opened : conn'.isOpen = true) :
    { client with connections := client.connections.insert id conn' }.Tables where
  inverse := tables.inverse_target.replace known target
  bounded := Table.forall_insert tables.bounded (tables.bounded id conn known)
  registered other := by
    simp only [tables.registered other, Table.insert_apply]
    split
    case isTrue same =>
      subst same
      simp [known]
    case isFalse => rfl
  distinct := tables.distinct
  sockets := Table.forall_insert tables.sockets (socket.trans (tables.sockets id conn known))
  opened := Table.forall_insert tables.opened opened

/-- A connection is closed and removed from both maps. -/
theorem Tables.close (tables : client.Tables) {id : Nat} {conn : Connection σ}
    (known : client.connections id = some conn) :
    { client with
      registry := client.registry.erase id
      connections := client.connections.remove id
      destinations := client.destinations.remove conn.target }.Tables where
  inverse := tables.inverse_target.remove known
  bounded := Table.forall_remove tables.bounded
  registered other := by
    simp only [tables.distinct.mem_erase_iff, tables.registered other, Table.remove_apply]
    split
    case isTrue same => simp [same]
    case isFalse away => simp [away]
  distinct := tables.distinct.erase id
  sockets := Table.forall_remove tables.sockets
  opened := Table.forall_remove tables.opened

/-- A client with a new connection under the next id. -/
def joined [ByteStream σ] (addr : String) (client : Client σ) : Client σ :=
  { client with
    registry := (client.counter + 1) :: client.registry
    counter := client.counter + 1
    connections := client.connections.insert (client.counter + 1)
      (Connection.connected addr (client.counter + 1) client.recvBufferSize client.sendBufferSize)
    destinations := client.destinations.insert addr (client.counter + 1) }

/-- A connection is opened for an address that has none. -/
theorem Tables.joined [ByteStream σ] (tables : client.Tables) {target : String}
    (fresh : client.destinations target = none) : (client.joined target).Tables := by
  have unused : client.connections (client.counter + 1) = none := by
    rw [Option.eq_none_iff_forall_ne_some]
    intro c here
    have := tables.bounded _ c here
    omega
  refine ⟨?_, ?_, ?_, ?_, ?_, ?_⟩
  · show Table.Inverse (client.joined target).connections (client.joined target).destinations
      Connection.target
    exact tables.inverse_target.insert unused fresh
  · apply Table.forall_insert
    · intro id conn here
      exact Nat.le_succ_of_le (tables.bounded id conn here)
    · exact Nat.le_refl _
  · intro other
    simp only [Client.joined, List.mem_cons, tables.registered other, Table.insert_apply]
    split
    case isTrue same => simp [same]
    case isFalse away => simp [away]
  · refine List.nodup_cons.mpr ⟨?_, tables.distinct⟩
    rw [tables.registered, unused]
    exact Bool.false_ne_true
  · exact Table.forall_insert tables.sockets rfl
  · exact Table.forall_insert tables.opened rfl

/-- The counter may run ahead. -/
theorem Tables.tick (tables : client.Tables) :
    { client with counter := client.counter + 1 }.Tables where
  inverse := tables.inverse
  bounded id conn here := Nat.le_succ_of_le (tables.bounded id conn here)
  registered := tables.registered
  distinct := tables.distinct
  sockets := tables.sockets
  opened := tables.opened

section Calls

variable [ByteStream σ]

/-- A reported event is served unless the connection stays open and cannot be reregistered. -/
theorem Tables.serve (tables : client.Tables) {event : ClientEvent}
    (reported : event.token ∈ client.registry) :
    ((client.serve event).2.isSome = true ↔
      (event.keepsOpen = true → event.reregisters = true)) ∧
    ∀ traffic, client.serve event = (traffic, some next) → next.Tables ∧
      ∀ token, token ≠ event.token → token ∈ client.registry → token ∈ next.registry := by
  obtain ⟨conn, known⟩ := Option.isSome_iff_exists.mp ((tables.registered _).mp reported)
  have target := conn.serve_target event
  have socket := conn.serve_socket event
  have opened := Connection.serve_isOpen (tables.opened _ _ known) event
  have own := tables.sockets _ _ known
  simp only [Client.serve, known, opened]
  split
  case isTrue stays =>
    split
    case isTrue again =>
      refine ⟨by simp [again], ?_⟩
      intro traffic result
      simp only [Prod.mk.injEq, Option.some.injEq] at result
      obtain ⟨_, rfl⟩ := result
      have same : (client.connections.remove event.token).insert event.token
          ((conn.readable event).writable event).2 =
            client.connections.insert event.token ((conn.readable event).writable event).2 := by
        funext id
        simp only [Table.insert_apply, Table.remove_apply]
        split <;> rfl
      rw [same]
      refine ⟨tables.replace known target socket (opened.trans stays), ?_⟩
      intro token _ here
      exact here
    case isFalse refused =>
      refine ⟨by simp [stays, refused], ?_⟩
      intro traffic result
      simp at result
  case isFalse closes =>
    refine ⟨by simp [closes], ?_⟩
    intro traffic result
    simp only [Prod.mk.injEq, Option.some.injEq] at result
    obtain ⟨_, rfl⟩ := result
    rw [socket, own, target]
    refine ⟨tables.close known, ?_⟩
    intro token away here
    exact (List.mem_erase_of_ne away).mpr here

omit [ByteStream σ] in
/-- The other sockets of a batch stay registered. -/
theorem Reports.rest {event : ClientEvent} {events : List ClientEvent}
    (reports : client.Reports (event :: events))
    (stay : ∀ token, token ≠ event.token → token ∈ client.registry → token ∈ next.registry) :
    next.Reports events := by
  obtain ⟨distinct, reported⟩ := reports
  obtain ⟨first, others⟩ := List.nodup_cons.mp distinct
  refine ⟨others, ?_⟩
  intro other mem
  refine stay other.token ?_ (reported other (List.mem_cons_of_mem _ mem))
  intro same
  exact first (List.mem_map.mpr ⟨other, mem, same⟩)

/-- A batch whose events are all served begins with an event that is served. -/
theorem poll_cons {event : ClientEvent} {events : List ClientEvent} {traffic : List Traffic}
    (polled : client.poll (event :: events) = (traffic, some next)) :
    ∃ first after more, client.serve event = (first, some after) ∧
      after.poll events = (more, some next) := by
  rw [Client.poll] at polled
  cases served : client.serve event with
  | mk first result =>
      rw [served] at polled
      cases result with
      | none => cases polled
      | some after =>
          have reached : (after.poll events).2 = some next := (congrArg Prod.snd polled :)
          exact ⟨first, after, (after.poll events).1, rfl, Prod.ext rfl reached⟩

/-- A batch is served unless one of its events is not. -/
theorem Tables.poll (tables : client.Tables) {events : List ClientEvent}
    (reports : client.Reports events) :
    ((client.poll events).2.isSome = true ↔
      ∀ event ∈ events, event.keepsOpen = true → event.reregisters = true) ∧
    ∀ traffic, client.poll events = (traffic, some next) → next.Tables := by
  induction events generalizing client with
  | nil =>
      refine ⟨by simp [Client.poll], ?_⟩
      intro traffic result
      cases result
      exact tables
  | cons event events ih =>
      have served := fun next => @Tables.serve _ client next _ tables event
        (reports.2 event List.mem_cons_self)
      rw [Client.poll]
      cases result : client.serve event with
      | mk traffic after =>
          have alive := (served client).1
          rw [result] at alive
          cases after with
          | none =>
              have broken : ¬ (event.keepsOpen = true → event.reregisters = true) :=
                fun fine => Bool.false_ne_true (alive.mpr fine)
              refine ⟨?_, ?_⟩
              · constructor
                · intro some
                  cases some
                · intro fine
                  exact absurd (fine event List.mem_cons_self) broken
              · intro _ ended
                simp at ended
          | some after =>
              obtain ⟨kept, stay⟩ := (served after).2 traffic result
              obtain ⟨iff, last⟩ := ih kept (Reports.rest reports stay)
              refine ⟨?_, ?_⟩
              · show (after.poll events).2.isSome = true ↔ _
                rw [iff, List.forall_mem_cons]
                constructor
                · intro fine
                  exact ⟨alive.mp rfl, fine⟩
                · exact And.right
              · intro more ended
                have reached : (after.poll events).2 = some next := (congrArg Prod.snd ended :)
                exact last (after.poll events).1 (Prod.ext rfl reached)

theorem put_eq_some {addr : String} {payload : List UInt8} {id stored : Nat} :
    client.put addr payload = some (id, stored, next) ↔ client.destinations addr = some id ∧
      ∃ conn, client.connections id = some conn ∧
        stored = (ByteStream.put conn.sendBuf payload).1 ∧
        next = { client with
          connections := client.connections.insert id { conn with
            sendBuf := (ByteStream.put conn.sendBuf payload).2 } } := by
  simp only [Client.put, Option.bind_eq_bind, Option.bind_eq_some_iff, Option.pure_def,
    Option.some.injEq, Prod.mk.injEq]
  constructor
  · rintro ⟨_, found, conn, known, rfl, rfl, rfl⟩
    exact ⟨found, conn, known, rfl, rfl⟩
  · rintro ⟨found, conn, known, rfl, rfl⟩
    exact ⟨id, found, conn, known, rfl, rfl, rfl⟩

/-- Both lookups of `put` succeed when the first one does. -/
theorem Tables.put (tables : client.Tables) (addr : String) (payload : List UInt8) :
    ((client.put addr payload).isSome = true ↔ client.has addr = true) ∧
    ∀ id stored, client.put addr payload = some (id, stored, next) → next.Tables := by
  constructor
  · cases found : client.destinations addr with
    | none => simp [Client.put, has, found]
    | some id =>
        obtain ⟨conn, known, _⟩ := (tables.inverse addr id).mp found
        simp [Client.put, has, found, known]
  · intro id stored result
    obtain ⟨_, conn, known, _, rfl⟩ := put_eq_some.mp result
    exact tables.replace known rfl rfl (tables.opened id conn known)

end Calls

theorem polls_reports {h : List Traffic} {turn : Turn} (polls : Polls (some client) h turn)
    (events : List ClientEvent)
    (polled : turn.answers.polled = some events)
    (loop : turn.envelope.message = .clientLoop) : client.Reports events := by
  simp only [Polls, polled] at polls
  exact polls loop

section Connect

variable {α : Type} [SocketAddr α] [ByteStream σ]

/-- What a connect does when it returns. -/
theorem connect_cases {target : String} {connected : Option Bool} {result : Except Unit Nat}
    (returned : client.connect α target connected = some (result, next)) :
    (result = .error () ∧ next = { client with counter := client.counter + 1 } ∧
      (parse (α := α) target = none ∨ connected = none)) ∨
    ∃ addr : α, parse target = some addr ∧ connected = some true ∧
      result = .ok (client.counter + 1) ∧ next = client.joined (text addr) := by
  unfold connect at returned
  dsimp only at returned
  split at returned
  case h_1 unknown =>
    cases returned
    exact .inl ⟨rfl, rfl, .inl unknown⟩
  case h_2 =>
    cases returned
    exact .inl ⟨rfl, rfl, .inr rfl⟩
  case h_3 => cases returned
  case h_4 addr known =>
    cases returned
    exact .inr ⟨addr, known, rfl, rfl, rfl⟩

theorem connect_eq_none {target : String} {connected : Option Bool} :
    client.connect α target connected = none ↔
      (∃ addr : α, parse target = some addr) ∧ connected = some false := by
  unfold connect
  dsimp only
  split <;> simp_all

/-- A failed connect changes neither map. -/
theorem connect_error {target : String} {connected : Option Bool}
    (failed : client.connect α target connected = some (.error (), next)) :
    next.connections = client.connections ∧ next.destinations = client.destinations := by
  obtain ⟨_, rfl, _⟩ | ⟨_, _, _, ok, _⟩ := connect_cases failed
  · exact ⟨rfl, rfl⟩
  · cases ok

end Connect

section Receive

variable {α : Type} [SocketAddr α]

variable (α) in
/-- The condition under which a host can be connected: registering succeeds, and the host is
written as its address is. -/
def Spelled (host : String) (connected : Option Bool) : Prop :=
  match parse (α := α) host, connected with
  | some addr, some registered => registered = true ∧ text addr = host
  | _, _ => True

instance (host : String) (connected : Option Bool) : Decidable (Spelled α host connected) := by
  unfold Spelled
  split <;> infer_instance

variable (α) in
/-- The condition under which a call returns: polling and registering succeed, and a host
that gets connected is spelled out. -/
def Withstands (client : Client σ) (turn : Turn) : Prop :=
  match turn.envelope.message, turn.answers.polled, splitAddress turn.envelope.to with
  | .clientLoop, none, _ => False
  | .clientLoop, some events, _ =>
      ∀ event ∈ events, event.keepsOpen = true → event.reregisters = true
  | .bytes _, _, some (_, host) =>
      client.has host = true ∨ Spelled α host turn.answers.connected
  | _, _, _ => True

instance (client : Client σ) (turn : Turn) : Decidable (client.Withstands α turn) := by
  unfold Withstands
  generalize turn.envelope.message = message, turn.answers.polled = polled,
    splitAddress turn.envelope.to = address
  cases message <;> cases polled <;> cases address <;> infer_instance

variable [ByteStream σ]

theorem Tables.sent (tables : client.Tables) (host : String) (packet : Packet) :
    ((client.sent host packet).2.2.isSome = true ↔ client.has host = true) ∧
    ∀ next, (client.sent host packet).2.2 = some next → next.Tables := by
  have found := fun next => @Tables.put _ client next _ tables host packet.toBytes
  unfold Client.sent
  cases result : client.put host packet.toBytes with
  | none =>
      refine ⟨?_, nofun⟩
      rw [← (found client).1, result]
      exact Iff.rfl
  | some placed =>
      obtain ⟨id, stored, after⟩ := placed
      refine ⟨?_, ?_⟩
      · rw [← (found client).1, result]
        exact Iff.rfl
      · intro next same
        cases same
        exact (found after).2 id stored result

theorem sent_eq_none {host : String} (packet : Packet) (absent : client.destinations host = none) :
    (client.sent host packet).2.2 = none := by
  simp [Client.sent, Client.put, absent]

/-- A call of `receive` returns exactly under the condition, and keeps the tables. -/
theorem Tables.receive (tables : client.Tables) (me : Tag) (turn : Turn)
    (polls : ∀ events, turn.answers.polled = some events →
      turn.envelope.message = .clientLoop → client.Reports events) :
    ((client.receive α me turn.answers turn.envelope).2.2.isSome = true ↔
      client.Withstands α turn) ∧
    ∀ next, (client.receive α me turn.answers turn.envelope).2.2 = some next → next.Tables := by
  unfold Client.receive Withstands
  cases message : turn.envelope.message with
  | clientLoop =>
    cases polled : turn.answers.polled with
    | none => exact ⟨by simp, nofun⟩
    | some events =>
        have served := fun next => @Tables.poll _ client next _ tables events
          (polls events polled message)
        have alive := (served client).1
        dsimp only
        cases result : client.poll events with
        | mk traffic after =>
            rw [result] at alive
            cases after with
            | none => exact ⟨alive, nofun⟩
            | some after =>
                refine ⟨alive, ?_⟩
                intro next same
                cases same
                exact (served after).2 traffic result
  | bytes payload =>
    obtain ⟨⟨tag, host⟩, split⟩ :=
      Option.isSome_iff_exists.mp (splitAddress_isSome turn.envelope.to)
    simp only [split]
    by_cases known : client.has host = true
    · simp only [known, if_true, true_or]
      obtain ⟨iff, kept⟩ := tables.sent host ⟨tag, turn.envelope.from, payload, client.responsePort⟩
      exact ⟨by rw [iff, known]; simp, kept⟩
    · have absent : client.destinations host = none := by simpa [has] using known
      rw [Bool.not_eq_true] at known
      simp only [known, Bool.false_eq_true, if_false, false_or]
      cases result : client.connect α host turn.answers.connected with
      | none =>
          obtain ⟨⟨addr, parsed⟩, refused⟩ := connect_eq_none.mp result
          simp [Spelled, parsed, refused]
      | some connected =>
          obtain ⟨outcome, after⟩ := connected
          obtain ⟨rfl, rfl, failed⟩ | ⟨addr, parsed, accepted, rfl, rfl⟩ := connect_cases result
          · refine ⟨?_, ?_⟩
            · obtain none | none := failed
              · simp [Spelled, none]
              · cases parsed : parse (α := α) host <;> simp [Spelled, none, parsed]
            · intro next same
              cases same
              exact tables.tick
          · simp only [Spelled, parsed, accepted]
            by_cases spelled : text addr = host
            · obtain ⟨iff, kept⟩ := (tables.joined (spelled.symm ▸ absent)).sent host
                ⟨tag, turn.envelope.from, payload, client.responsePort⟩
              refine ⟨?_, kept⟩
              rw [iff]
              simp [has, Client.joined, spelled]
            · have away : (client.joined (text addr)).destinations host = none := by
                show client.destinations.insert (text addr) (client.counter + 1) host = none
                rw [Table.insert_ne _ _ (Ne.symm spelled)]
                exact absent
              rw [sent_eq_none _ away]
              exact ⟨by simp [spelled], nofun⟩
  | serverLoop | work | other =>
    refine ⟨by simp, ?_⟩
    intro next same
    cases same
    exact tables

variable {responsePort : UInt16} {recvBufferSize sendBufferSize : Nat}
variable {s : Option (Client σ)} {h seen : List Traffic} {turn : Turn}

/-- A step of a client that is there is a call of `receive`. -/
theorem machine_step {t : Option (Client σ)}
    (taken : (machine α responsePort recvBufferSize sendBufferSize).step s turn =
      some (t, seen)) :
    ∃ client, s = some client ∧
      t = (client.receive α clientTag turn.answers turn.envelope).2.2 ∧
      seen = (client.receive α clientTag turn.answers turn.envelope).2.1 := by
  obtain ⟨client, rfl, same⟩ := Option.map_eq_some_iff.mp taken
  cases same
  exact ⟨client, rfl, rfl, rfl⟩

theorem machine_tables
    (run : (machine α responsePort recvBufferSize sendBufferSize).Run Polls s h) :
    ∀ client, s = some client → client.Tables := by
  induction run with
  | start =>
      intro client same
      cases same
      exact tables_new responsePort recvBufferSize sendBufferSize
  | @step s t h turn seen before polls taken ih =>
      obtain ⟨old, rfl, rfl, _⟩ := machine_step taken
      intro client same
      exact ((ih old rfl).receive clientTag turn (polls_reports polls)).2 client same

/-- **The tables stay inverse.** Whatever was sent and polled, in a client whose calls all
returned `destinations` has exactly the targets of `connections` with their ids, ids are
at most `counter`, and a failed connect changes neither map. -/
theorem tables_inverse
    (run : (machine α responsePort recvBufferSize sendBufferSize).Run Polls (some client) h) :
    (∀ addr id, client.destinations addr = some id ↔
      ∃ conn, client.connections id = some conn ∧ conn.target = addr) ∧
    (∀ id, (client.connections id).isSome = true ∨ (∃ addr, client.destinations addr = some id) →
      id ≤ client.counter) ∧
    ∀ target connected next, client.connect α target connected = some (.error (), next) →
      next.connections = client.connections ∧ next.destinations = client.destinations := by
  have tables := machine_tables run client rfl
  refine ⟨tables.inverse, ?_, fun target connected next failed => connect_error failed⟩
  intro id used
  obtain known | ⟨addr, found⟩ := used
  · obtain ⟨conn, here⟩ := Option.isSome_iff_exists.mp known
    exact tables.bounded id conn here
  · obtain ⟨conn, here, _⟩ := (tables.inverse addr id).mp found
    exact tables.bounded id conn here

end Receive

/-- A call that sends `payload`. The socket is connected and registered if one is needed. -/
def sending («to» : String) (payload : List UInt8) : Turn :=
  ⟨(Envelope.of (.bytes payload)).withTo «to», ⟨none, some true⟩⟩

def polling (events : List ClientEvent) : Turn :=
  ⟨.of .clientLoop, ⟨some events, none⟩⟩

/-- The socket takes all bytes that wait. -/
def writes (token : Nat) : ClientEvent := ⟨token, false, true, false, false, [], none, true⟩

/-- Two hosts are written to, and one of them hangs up. -/
def exchange : List Turn :=
  [sending "a@127.0.0.1:80" [1, 2], sending "b@127.0.0.1:81" [3], polling [writes 2, writes 1],
    polling [{ writes 1 with isWriteClosed := true }]]

theorem tables_inverse_exchange :
    ∃ (s : Option (Client Buffer)) (h : List Traffic),
      (machine Loopback 9 64 64).Run Polls s h ∧ s.isSome = true ∧
        ∀ client, s = some client →
          ∃ conn, client.connections 2 = some conn ∧ conn.target = "127.0.0.1:81" := by
  have run := Machine.run_replay (machine (σ := Buffer) Loopback 9 64 64) Polls exchange
    (by decide)
  refine ⟨_, _, run, by decide, ?_⟩
  intro client same
  have filed : (((machine (σ := Buffer) Loopback 9 64 64).replay Polls exchange).get
      (by decide)).1.bind (fun client => client.destinations "127.0.0.1:81") = some 2 := by decide
  rw [same] at filed run
  exact ((tables_inverse run).1 "127.0.0.1:81" 2).mp filed

/-! ## Panics -/

section Panics

variable {α : Type} [SocketAddr α]

variable (α) in
/-- The poll keeps its promise, and the call returns. -/
def Polite (s : Option (Client σ)) (h : List Traffic) (turn : Turn) : Prop :=
  Polls s h turn ∧
    match s with
    | some client => client.Withstands α turn
    | none => True

instance (s : Option (Client σ)) (h : List Traffic) (turn : Turn) :
    Decidable (Polite α s h turn) := by
  induction s <;> exact inferInstanceAs (Decidable (_ ∧ _))

variable [ByteStream σ] {responsePort : UInt16} {recvBufferSize sendBufferSize : Nat}

/-- **No panic.** In every run in which polling and registering succeed and each host that
gets connected is written as its address is, all calls return. A call returns only under this
condition, and both lookups of `put` succeed when `has` does. -/
theorem client_survives :
    (∀ s h, (machine α responsePort recvBufferSize sendBufferSize).Run (Polite α) s h →
      (s : Option (Client σ)).isSome = true) ∧
    ∀ (client : Client σ) h,
      (machine α responsePort recvBufferSize sendBufferSize).Run Polls (some client) h →
        (∀ turn, Polls (some client) h turn →
          ((client.receive α clientTag turn.answers turn.envelope).2.2.isSome = true ↔
            client.Withstands α turn)) ∧
        ∀ addr payload, client.has addr = true → (client.put addr payload).isSome = true := by
  refine ⟨?_, ?_⟩
  · intro s h run
    induction run with
    | start => rfl
    | @step s t h turn seen before polite taken ih =>
        obtain ⟨client, rfl, rfl, _⟩ := machine_step taken
        have tables := machine_tables (before.mono fun _ polite => polite.1) client rfl
        exact (tables.receive clientTag turn (polls_reports polite.1)).1.mpr polite.2
  · intro client h run
    have tables := machine_tables run client rfl
    refine ⟨?_, ?_⟩
    · intro turn polls
      exact (tables.receive clientTag turn (polls_reports polls)).1
    · intro addr payload known
      have found := (@Tables.put _ client client _ tables addr payload).1
      exact found.mpr known

end Panics

theorem client_survives_exchange :
    ∃ (s : Option (Client Buffer)) (h : List Traffic),
      (machine Loopback 9 64 64).Run (Polite Loopback) s h ∧ s.isSome = true := by
  have run := Machine.run_replay (machine (σ := Buffer) Loopback 9 64 64) (Polite Loopback)
    exchange (by decide)
  exact ⟨_, _, run, client_survives.1 _ _ run⟩

/-- The port of the address has a leading zero. -/
def misspelled : List Turn := [sending "a@127.0.0.1:080" [1, 2]]

/-- The socket is connected, and the bytes find no connection under the text of the host. -/
theorem client_panics :
    ∃ h, (machine (σ := Buffer) Loopback 9 64 64).Run Polls none h ∧
      SocketAddr.parse "127.0.0.1:080" = some (⟨80⟩ : Loopback) := by
  have run := Machine.run_replay (machine (σ := Buffer) Loopback 9 64 64) Polls misspelled
    (by decide)
  exact ⟨_, run, by decide⟩

end Client
end Uppercut
