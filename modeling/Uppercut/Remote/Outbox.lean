import Uppercut.Remote.Tables

/-!
# What the client sends

The bytes that are put on a connection wait in its buffer until a write takes them, if there was
room for them; otherwise they are dropped. A write that fails leaves the whole buffer in place, so
bytes that the socket did take are sent again, unless the connection is closed in the same turn.
-/

namespace Uppercut

open ByteStream LawfulByteStream BoundedByteStream SocketAddr

namespace Client

def putOn (id : Nat) (h : List Traffic) : List UInt8 :=
  h.flatMap fun
    | .put other bytes _ => if other = id then bytes else []
    | .wrote _ _ => []

/-- What the buffer stored. -/
def storedOn (id : Nat) (h : List Traffic) : List UInt8 :=
  h.flatMap fun
    | .put other bytes stored => if other = id then bytes.take stored else []
    | .wrote _ _ => []

def wroteOn (id : Nat) (h : List Traffic) : List UInt8 :=
  h.flatMap fun
    | .wrote other bytes => if other = id then bytes else []
    | .put _ _ _ => []

@[simp] theorem storedOn_append (id : Nat) (h k : List Traffic) :
    storedOn id (h ++ k) = storedOn id h ++ storedOn id k := List.flatMap_append

@[simp] theorem wroteOn_append (id : Nat) (h k : List Traffic) :
    wroteOn id (h ++ k) = wroteOn id h ++ wroteOn id k := List.flatMap_append

@[simp] theorem storedOn_wrote (id other : Nat) (bytes : List UInt8) :
    storedOn id [.wrote other bytes] = [] := rfl

@[simp] theorem wroteOn_put (id other : Nat) (bytes : List UInt8) (stored : Nat) :
    wroteOn id [.put other bytes stored] = [] := rfl

@[simp] theorem storedOn_put (id other : Nat) (bytes : List UInt8) (stored : Nat) :
    storedOn id [.put other bytes stored] = if other = id then bytes.take stored else [] := by
  simp [storedOn]

@[simp] theorem wroteOn_wrote (id other : Nat) (bytes : List UInt8) :
    wroteOn id [.wrote other bytes] = if other = id then bytes else [] := by simp [wroteOn]

/-- Nothing was dropped. -/
def Whole (h : List Traffic) : Prop :=
  ∀ id bytes stored, .put id bytes stored ∈ h → bytes.length ≤ stored

theorem storedOn_whole {h : List Traffic} (whole : Whole h) (id : Nat) :
    storedOn id h = putOn id h := by
  apply List.flatMap_congr
  intro x mem
  cases x with
  | put other bytes stored =>
      dsimp only
      rw [List.take_of_length_le (whole other bytes stored mem)]
  | wrote => rfl

end Client

/-- The write takes some bytes and fails, and the connection stays open. -/
def ClientEvent.spoils (event : ClientEvent) : Bool :=
  event.isWritable && !event.isWriteClosed && decide (0 < event.failsAfter.getD 0)

namespace Client

variable {σ : Type}

/-- No write takes some bytes, fails and leaves the connection open. -/
def WritesOnce (_ : Option (Client σ)) (_ : List Traffic) (turn : Turn) : Prop :=
  turn.envelope.message = .clientLoop →
    match turn.answers.polled with
    | some events => ∀ event ∈ events, event.spoils = false
    | none => True

instance (s : Option (Client σ)) (h : List Traffic) (turn : Turn) :
    Decidable (WritesOnce s h turn) := by
  unfold WritesOnce
  generalize turn.answers.polled = polled
  induction polled <;> infer_instance

section Room

variable [ByteStream σ]

/-- How much room there is for what is sent to a host. -/
def room (host : String) (client : Client σ) : Nat :=
  match (client.destinations host).bind client.connections with
  | some conn => cap conn.sendBuf
  | none => cap (withCapacity client.sendBufferSize : σ)

variable (α : Type) [SocketAddr α]

/-- There is a connection to the host, or it gets connected under the text it is written as. -/
def Reaches (client : Client σ) (host : String) (connected : Option Bool) : Prop :=
  client.has host = true ∨
    connected = some true ∧ (parse (α := α) host).map text = some host

/-- A packet that gets put on a connection fits into the buffer. -/
def Fits (client : Client σ) (turn : Turn) : Prop :=
  match turn.envelope.message, splitAddress turn.envelope.to with
  | .bytes payload, some («to», host) => client.Reaches α host turn.answers.connected →
      (Packet.toBytes ⟨«to», turn.envelope.from, payload, client.responsePort⟩).length ≤
        client.room host
  | _, _ => True

/-- Nothing is written twice, and nothing is dropped. -/
def SendsOnce (s : Option (Client σ)) (h : List Traffic) (turn : Turn) : Prop :=
  WritesOnce s h turn ∧
    match s with
    | some client => client.Fits α turn
    | none => True

instance (client : Client σ) (host : String) (connected : Option Bool) :
    Decidable (client.Reaches α host connected) :=
  inferInstanceAs (Decidable (_ ∨ _))

instance (client : Client σ) (turn : Turn) : Decidable (client.Fits α turn) :=
  match message : turn.envelope.message, address : splitAddress turn.envelope.to with
  | .bytes payload, some («to», host) =>
      decidable_of_iff (client.Reaches α host turn.answers.connected →
          (Packet.toBytes ⟨«to», turn.envelope.from, payload, client.responsePort⟩).length ≤
            client.room host) (by simp only [Fits, message, address])
  | .bytes _, none => isTrue (by simp only [Fits, message, address])
  | .clientLoop, _ | .serverLoop, _ | .work .., _ | .other _, _ =>
      isTrue (by simp only [Fits, message])

instance (s : Option (Client σ)) (h : List Traffic) (turn : Turn) :
    Decidable (SendsOnce α s h turn) := by
  induction s <;> exact inferInstanceAs (Decidable (_ ∧ _))

end Room

variable [ByteStream σ] [LawfulByteStream σ]

/-- What was accepted and what waits is what an open connection stored. -/
structure Outbox (client : Client σ) (h : List Traffic) : Prop where
  fresh : ∀ id, client.counter < id →
    client.connections id = none ∧ storedOn id h = [] ∧ wroteOn id h = []
  held : ∀ id conn, client.connections id = some conn →
    (view conn.sendBuf).passed = [] ∧ wroteOn id h ++ (view conn.sendBuf).ahead = storedOn id h
  sent : ∀ id, wroteOn id h <+: storedOn id h

/-- What a turn of the polling loop takes out of the buffer. -/
theorem Connection.serve_sendBuf {conn : Connection σ} {event : ClientEvent}
    (clean : (view conn.sendBuf).passed = []) (whole : event.spoils = false) :
    ((conn.readable event).writable event).1 <+: (view conn.sendBuf).ahead ∧
    (((conn.readable event).writable event).2.isOpen = true →
      (view ((conn.readable event).writable event).2.sendBuf).passed = [] ∧
      ((conn.readable event).writable event).1 ++
        (view ((conn.readable event).writable event).2.sendBuf).ahead =
          (view conn.sendBuf).ahead) := by
  have same := (readable_frame event conn).2.2
  have bytes := asRef_eq conn.sendBuf clean
  unfold writable
  split
  case isFalse => exact ⟨List.nil_prefix, fun _ => by rw [same]; exact ⟨clean, rfl⟩⟩
  case isTrue ready =>
    simp only [send, same, bytes]
    have emptied : view (pull (clear conn.sendBuf)) = ⟨[], []⟩ := by
      rw [view_pull, view_clear]
    split
    case h_1 k fails =>
      split
      case isTrue some_left =>
        refine ⟨List.take_prefix _ _, ?_⟩
        intro opened
        -- The connection stays open, so the write took nothing.
        have none : k = 0 := by
          simp only [ClientEvent.spoils, ready, fails, Option.getD_some, Bool.true_and] at whole
          rw [opened, Bool.true_and, decide_eq_false_iff_not] at whole
          exact Nat.eq_zero_of_not_pos whole
        simp only [none, List.take_zero, List.nil_append, view_pull]
        exact ⟨trivial, trivial⟩
      case isFalse =>
        refine ⟨List.prefix_refl _, fun _ => ?_⟩
        simp only [emptied, List.append_nil]
        exact ⟨trivial, trivial⟩
    case h_2 =>
      refine ⟨List.prefix_refl _, fun _ => ?_⟩
      simp only [emptied, List.append_nil]
      exact ⟨trivial, trivial⟩

variable {client next : Client σ} {h k traffic : List Traffic} {id : Nat} {conn : Connection σ}

/-- What a connection is put and what it gives out, in terms of its buffer before. -/
theorem Outbox.sent_append (outbox : client.Outbox h) (known : client.connections id = some conn)
    (aside : ∀ other, other ≠ id → storedOn other k = [] ∧ wroteOn other k = [])
    (took : wroteOn id k <+: (view conn.sendBuf).ahead ++ storedOn id k) (other : Nat) :
    wroteOn other (h ++ k) <+: storedOn other (h ++ k) := by
  rw [storedOn_append, wroteOn_append]
  by_cases same : other = id
  · subst same
    rw [← (outbox.held other conn known).2, List.append_assoc]
    exact (List.prefix_append_right_inj _).mpr took
  · rw [(aside other same).1, (aside other same).2, List.append_nil, List.append_nil]
    exact outbox.sent other

theorem Outbox.step (outbox : client.Outbox h) (known : client.connections id = some conn)
    (aside : ∀ other, other ≠ id → storedOn other k = [] ∧ wroteOn other k = [])
    (took : wroteOn id k <+: (view conn.sendBuf).ahead ++ storedOn id k)
    (counter : next.counter = client.counter)
    (others : ∀ other, other ≠ id → next.connections other = client.connections other)
    (own : ∀ conn', next.connections id = some conn' → (view conn'.sendBuf).passed = [] ∧
      wroteOn id k ++ (view conn'.sendBuf).ahead = (view conn.sendBuf).ahead ++ storedOn id k) :
    next.Outbox (h ++ k) where
  fresh other later := by
    have unused := outbox.fresh other (counter ▸ later)
    have away : other ≠ id := by
      intro same
      rw [same, known] at unused
      cases unused.1
    rw [others other away, storedOn_append, wroteOn_append, (aside other away).1,
      (aside other away).2, List.append_nil, List.append_nil]
    exact unused
  held other conn' here := by
    rw [storedOn_append, wroteOn_append]
    by_cases same : other = id
    · subst same
      obtain ⟨clean, kept⟩ := own conn' here
      refine ⟨clean, ?_⟩
      rw [List.append_assoc, kept, ← List.append_assoc, (outbox.held other conn known).2]
    · rw [others other same] at here
      rw [(aside other same).1, (aside other same).2, List.append_nil, List.append_nil]
      exact outbox.held other conn' here
  sent := outbox.sent_append known aside took

theorem Outbox.serve (outbox : client.Outbox h) {event : ClientEvent}
    {after : Option (Client σ)} (whole : event.spoils = false)
    (served : client.serve event = (traffic, after)) :
    (∀ id, wroteOn id (h ++ traffic) <+: storedOn id (h ++ traffic)) ∧
      ∀ next, after = some next → next.Outbox (h ++ traffic) := by
  unfold Client.serve at served
  cases known : client.connections event.token with
  | none =>
      rw [known] at served
      cases served
      refine ⟨?_, nofun⟩
      rw [List.append_nil]
      exact outbox.sent
  | some conn =>
      obtain ⟨clean, _⟩ := outbox.held _ _ known
      obtain ⟨took, kept⟩ := Connection.serve_sendBuf clean whole
      simp only [known] at served
      let bytes := ((conn.readable event).writable event).1
      have aside (other : Nat) (away : other ≠ event.token) :
          storedOn other [.wrote event.token bytes] = [] ∧
            wroteOn other [.wrote event.token bytes] = [] := by
        simp [away.symm]
      have own : wroteOn event.token [.wrote event.token bytes] = bytes := by
        simp
      have taken : wroteOn event.token [.wrote event.token bytes] <+:
          (view conn.sendBuf).ahead ++ storedOn event.token [.wrote event.token bytes] := by
        rw [own, storedOn_wrote, List.append_nil]
        exact took
      have sent := outbox.sent_append known aside taken
      split at served
      case isTrue opened =>
        obtain ⟨cleaned, whole⟩ := kept opened
        split at served
        case isTrue =>
          cases served
          refine ⟨sent, ?_⟩
          intro next same
          cases same
          refine outbox.step known aside taken rfl ?_ ?_
          · intro other away
            show (client.connections.remove _).insert _ _ other = _
            rw [Table.insert_ne _ _ away, Table.remove_ne _ away]
          · intro conn' here
            simp only [Table.insert_self, Option.some.injEq] at here
            subst here
            rw [own, storedOn_wrote, List.append_nil]
            exact ⟨cleaned, whole⟩
        case isFalse =>
          cases served
          exact ⟨sent, nofun⟩
      case isFalse =>
        cases served
        refine ⟨sent, ?_⟩
        intro next same
        cases same
        refine outbox.step known aside taken rfl ?_ ?_
        · intro other away
          exact Table.remove_ne _ away
        · intro conn' here
          simp at here

theorem Outbox.poll (outbox : client.Outbox h) {events : List ClientEvent}
    {after : Option (Client σ)} (whole : ∀ event ∈ events, event.spoils = false)
    (polled : client.poll events = (traffic, after)) :
    (∀ id, wroteOn id (h ++ traffic) <+: storedOn id (h ++ traffic)) ∧
      ∀ next, after = some next → next.Outbox (h ++ traffic) := by
  induction events generalizing client h traffic with
  | nil =>
      cases polled
      rw [List.append_nil]
      refine ⟨outbox.sent, ?_⟩
      intro next same
      cases same
      exact outbox
  | cons event events ih =>
      rw [Client.poll] at polled
      cases served : client.serve event with
      | mk first middle =>
          rw [served] at polled
          obtain ⟨sent, kept⟩ := outbox.serve (whole event List.mem_cons_self) served
          cases middle with
          | none =>
              cases polled
              refine ⟨sent, ?_⟩
              intro next same
              cases same
          | some middle =>
              cases polled
              rw [← List.append_assoc]
              exact ih (kept middle rfl) (fun e mem => whole e (List.mem_cons_of_mem _ mem)) rfl

theorem Outbox.joined (outbox : client.Outbox h) (addr : String) :
    (client.joined addr).Outbox h where
  fresh other later := by
    have later : client.counter + 1 < other := later
    have away : other ≠ client.counter + 1 := by omega
    refine ⟨?_, (outbox.fresh other (by omega)).2⟩
    show client.connections.insert _ _ other = none
    rw [Table.insert_ne _ _ away]
    exact (outbox.fresh other (by omega)).1
  held := by
    apply Table.forall_insert outbox.held
    obtain ⟨_, put, wrote⟩ := outbox.fresh (client.counter + 1) (Nat.lt_succ_self _)
    simp [Connection.connected, view_withCapacity, put, wrote]
  sent := outbox.sent

theorem Outbox.tick (outbox : client.Outbox h) :
    { client with counter := client.counter + 1 }.Outbox h where
  fresh other later := outbox.fresh other (Nat.lt_of_succ_lt later)
  held := outbox.held
  sent := outbox.sent

variable [BoundedByteStream σ]

theorem Outbox.put (outbox : client.Outbox h) {addr : String} {payload : List UInt8} {stored : Nat}
    (placed : client.put addr payload = some (id, stored, next)) :
    next.Outbox (h ++ [.put id payload stored]) := by
  obtain ⟨_, conn, known, rfl, rfl⟩ := put_eq_some.mp placed
  refine outbox.step known ?_ ?_ rfl ?_ ?_
  · intro other away
    simp [away.symm]
  · rw [wroteOn_put]
    exact List.nil_prefix
  · intro other away
    exact Table.insert_ne _ _ away
  · intro conn' here
    simp only [Table.insert_self, Option.some.injEq] at here
    subst here
    simp [view_put, Cursor.append, (outbox.held _ conn known).1]

theorem outbox_sent_call (outbox : client.Outbox h) (host : String) (packet : Packet) :
    (∀ id, wroteOn id (h ++ (client.sent host packet).2.1) <+:
      storedOn id (h ++ (client.sent host packet).2.1)) ∧
      ∀ next, (client.sent host packet).2.2 = some next →
        next.Outbox (h ++ (client.sent host packet).2.1) := by
  unfold Client.sent
  cases placed : client.put host packet.toBytes with
  | none =>
      refine ⟨?_, nofun⟩
      show ∀ id, wroteOn id (h ++ []) <+: storedOn id (h ++ [])
      rw [List.append_nil]
      exact outbox.sent
  | some result =>
      obtain ⟨id, stored, after⟩ := result
      have kept := outbox.put placed
      refine ⟨kept.sent, ?_⟩
      intro next same
      cases same
      exact kept

section Puts

omit [LawfulByteStream σ] [BoundedByteStream σ]

variable {bytes : List UInt8} {stored : Nat}

/-- Polling puts nothing. -/
theorem serve_put (event : ClientEvent) :
    Traffic.put id bytes stored ∉ (client.serve event).1 := by
  unfold serve
  split
  · exact List.not_mem_nil
  · dsimp only
    split <;> [split; skip] <;> simp

theorem poll_put (events : List ClientEvent) :
    Traffic.put id bytes stored ∉ (client.poll events).1 := by
  induction events generalizing client with
  | nil => exact List.not_mem_nil
  | cons event events ih =>
      have first := @serve_put _ _ client id bytes stored event
      rw [poll]
      cases served : client.serve event with
      | mk traffic next =>
          rw [served] at first
          cases next with
          | none => exact first
          | some next => exact List.not_mem_append first ih

/-- A packet is put into the buffer of the connection to its host. -/
theorem sent_put {host : String} {packet : Packet}
    (mem : Traffic.put id bytes stored ∈ (client.sent host packet).2.1) :
    bytes = packet.toBytes ∧ client.has host = true ∧ ∃ s : σ, cap s = client.room host ∧
      stored = (ByteStream.put s bytes).1 := by
  unfold sent at mem
  split at mem
  case h_1 => cases mem
  case h_2 placed =>
    cases List.mem_singleton.mp mem
    obtain ⟨found, conn, known, rfl, _⟩ := put_eq_some.mp placed
    exact ⟨rfl, by simp [has, found], conn.sendBuf, by simp [room, found, known], rfl⟩

/-- A new connection is found under the text of its address only, and is empty. -/
theorem room_joined {host addr : String} (absent : client.destinations host = none)
    (known : (client.joined addr).has host = true) :
    addr = host ∧ (client.joined addr).room host = client.room host := by
  by_cases same : host = addr
  · subst same
    exact ⟨rfl, by simp [room, joined, absent, Connection.connected]⟩
  · simp [has, joined, Table.insert_ne _ _ same, absent] at known

variable {α : Type} [SocketAddr α]

/-- What is put on a connection is the packet of the received envelope. -/
theorem receive_put {me : Tag} {answers : ClientAnswers} {envelope : Envelope}
    (mem : Traffic.put id bytes stored ∈ (client.receive α me answers envelope).2.1) :
    ∃ payload tag host, envelope.message = .bytes payload ∧
      splitAddress envelope.to = some (tag, host) ∧
      bytes = Packet.toBytes ⟨tag, envelope.from, payload, client.responsePort⟩ ∧
      client.Reaches α host answers.connected ∧
      ∃ s : σ, cap s = client.room host ∧ stored = (ByteStream.put s bytes).1 := by
  unfold receive at mem
  split at mem
  case h_1 =>
    split at mem
    · cases mem
    case h_2 events _ =>
      have none := @poll_put _ _ client id bytes stored events
      split at mem
      case h_1 polled | h_2 polled =>
        rw [polled] at none
        exact absurd mem none
  case h_2 payload message =>
    split at mem
    · cases mem
    case h_2 tag host split =>
      refine ⟨payload, tag, host, message, split, ?_⟩
      dsimp only at mem
      split at mem
      case isTrue known =>
        obtain ⟨same, _, s, room, put⟩ := sent_put mem
        exact ⟨same, .inl known, s, room, put⟩
      case isFalse unknown =>
        have absent : client.destinations host = none := by simpa [has] using unknown
        split at mem
        case h_1 => cases mem
        case h_3 => cases mem
        case h_2 joins =>
          obtain ⟨error, _⟩ | ⟨addr, parsed, registers, _, rfl⟩ := connect_cases joins
          · cases error
          · obtain ⟨same, known, s, room, put⟩ := sent_put mem
            obtain ⟨rfl, fresh⟩ := room_joined absent known
            exact ⟨same, .inr ⟨registers, by rw [parsed]; rfl⟩, s, room.trans fresh, put⟩
  case h_3 => cases mem

/-- A packet is stored as a whole, or dropped. -/
theorem receive_stored [LawfulByteStream σ] [BoundedByteStream σ] {me : Tag}
    {answers : ClientAnswers} {envelope : Envelope}
    (mem : Traffic.put id bytes stored ∈ (client.receive α me answers envelope).2.1) :
    stored = bytes.length ∨ stored = 0 := by
  obtain ⟨_, _, _, _, _, _, _, s, _, rfl⟩ := receive_put mem
  by_cases fits : bytes.length ≤ cap s
  · exact .inl (put_fits s bytes fits).1
  · exact .inr (put_full s bytes (Nat.lt_of_not_le fits)).1

end Puts

section Runs

variable {α : Type} [SocketAddr α]

theorem Outbox.receive (outbox : client.Outbox h) (me : Tag) {turn : Turn}
    (whole : WritesOnce (some client) h turn) :
    (∀ id, wroteOn id (h ++ (client.receive α me turn.answers turn.envelope).2.1) <+:
      storedOn id (h ++ (client.receive α me turn.answers turn.envelope).2.1)) ∧
      ∀ next, (client.receive α me turn.answers turn.envelope).2.2 = some next →
        next.Outbox (h ++ (client.receive α me turn.answers turn.envelope).2.1) := by
  have silent : (∀ id, wroteOn id (h ++ []) <+: storedOn id (h ++ [])) := by
    rw [List.append_nil]
    exact outbox.sent
  unfold Client.receive
  cases message : turn.envelope.message with
  | clientLoop =>
      have whole := whole message
      cases polled : turn.answers.polled with
      | none => exact ⟨silent, nofun⟩
      | some events =>
          rw [polled] at whole
          dsimp only
          cases result : client.poll events with
          | mk traffic after =>
              obtain ⟨sent, kept⟩ := outbox.poll whole result
              cases after with
              | none => exact ⟨sent, nofun⟩
              | some after =>
                  refine ⟨sent, ?_⟩
                  intro next same
                  cases same
                  exact kept after rfl
  | bytes payload =>
      obtain ⟨⟨tag, host⟩, split⟩ :=
        Option.isSome_iff_exists.mp (splitAddress_isSome turn.envelope.to)
      simp only [split]
      by_cases known : client.has host = true
      · simp only [known, if_true]
        exact outbox_sent_call outbox host _
      · rw [Bool.not_eq_true] at known
        simp only [known, Bool.false_eq_true, if_false]
        cases result : client.connect α host turn.answers.connected with
        | none => exact ⟨silent, nofun⟩
        | some connected =>
            obtain ⟨outcome, after⟩ := connected
            obtain ⟨rfl, rfl, _⟩ | ⟨addr, _, _, rfl, rfl⟩ := connect_cases result
            · refine ⟨silent, ?_⟩
              intro next same
              cases same
              rw [List.append_nil]
              exact outbox.tick
            · exact outbox_sent_call (outbox.joined (text addr)) host _
  | serverLoop | work | other =>
      refine ⟨silent, ?_⟩
      intro next same
      cases same
      rw [List.append_nil]
      exact outbox

/-- What was accepted is a prefix of what was stored. -/
theorem machine_outbox {s : Option (Client σ)} {responsePort : UInt16}
    {recvBufferSize sendBufferSize : Nat}
    (run : (machine α responsePort recvBufferSize sendBufferSize).Run WritesOnce s h) :
    (∀ id, wroteOn id h <+: storedOn id h) ∧ ∀ client, s = some client → client.Outbox h := by
  induction run with
  | start =>
      refine ⟨fun id => List.nil_prefix, ?_⟩
      intro client same
      cases same
      exact ⟨fun _ _ => ⟨rfl, rfl, rfl⟩, nofun, fun _ => List.nil_prefix⟩
  | @step s t h turn seen before whole taken ih =>
      obtain ⟨client, rfl, rfl, rfl⟩ := machine_step taken
      exact (ih.2 client rfl).receive clientTag whole

/-- Packets that fit are stored. -/
theorem machine_whole {s : Option (Client σ)} {responsePort : UInt16}
    {recvBufferSize sendBufferSize : Nat}
    (run : (machine α responsePort recvBufferSize sendBufferSize).Run (SendsOnce α) s h) :
    Whole h := by
  induction run with
  | start => exact fun _ _ _ mem => absurd mem List.not_mem_nil
  | @step s t h turn seen before once taken ih =>
      obtain ⟨client, rfl, rfl, rfl⟩ := machine_step taken
      intro id bytes stored mem
      obtain old | new := List.mem_append.mp mem
      · exact ih id bytes stored old
      · obtain ⟨payload, tag, host, message, split, rfl, reaches, s, size, rfl⟩ := receive_put new
        have fits := once.2
        simp only [Fits, message, split] at fits
        exact (put_fits s _ (size ▸ fits reaches)).1.ge

/-- **No byte is sent twice.** In every run in which no write takes some bytes, fails and
leaves the connection open, and each packet that is put on a connection fits into its buffer: the
bytes that were accepted from a connection are a prefix of those that were put on it. -/
theorem sent_once {s : Option (Client σ)} {responsePort : UInt16}
    {recvBufferSize sendBufferSize : Nat}
    (run : (machine α responsePort recvBufferSize sendBufferSize).Run (SendsOnce α) s h)
    (id : Nat) : wroteOn id h <+: putOn id h := by
  rw [← storedOn_whole (machine_whole run)]
  exact (machine_outbox (run.mono fun _ once => once.1)).1 id

end Runs

/-- The socket takes two bytes and fails. -/
def stalls (token : Nat) : ClientEvent := { writes token with failsAfter := some 2 }

/-- A write fails and the connection is closed. -/
def hangUp : List Turn :=
  [sending "a@127.0.0.1:80" [1, 2], polling [writes 1], sending "a@127.0.0.1:80" [3],
    polling [{ stalls 1 with isWriteClosed := true }]]

theorem sent_once_hangUp :
    ∃ (s : Option (Client Buffer)) (h : List Traffic),
      (machine Loopback 9 64 64).Run (SendsOnce Loopback) s h ∧ (wroteOn 1 h).length = 19 ∧
        wroteOn 1 h <+: putOn 1 h := by
  have run := Machine.run_replay (machine (σ := Buffer) Loopback 9 64 64) (SendsOnce Loopback)
    hangUp (by decide)
  exact ⟨_, _, run, by decide, sent_once run 1⟩

/-- The write would block after two bytes. The next one starts again. -/
def congestion : List Turn :=
  [sending "a@127.0.0.1:80" [1, 2], polling [stalls 1], polling [writes 1]]

theorem sent_twice :
    ∃ (s : Option (Client Buffer)) (h : List Traffic),
      (machine Loopback 9 64 64).Run Polls s h ∧ s.isSome = true ∧
        wroteOn 1 h = (putOn 1 h).take 2 ++ putOn 1 h ∧ ¬ wroteOn 1 h <+: putOn 1 h := by
  have run := Machine.run_replay (machine (σ := Buffer) Loopback 9 64 64) Polls congestion
    (by decide)
  exact ⟨_, _, run, by decide, by decide, by decide⟩

/-- The first packet does not fit into the buffer, and the second one does. -/
def overflow : List Turn :=
  [sending "a@127.0.0.1:80" (List.replicate 20 7), sending "a@127.0.0.1:80" [1],
    polling [writes 1]]

/-- The first packet is dropped, and the second one is sent. -/
theorem sent_without_first :
    ∃ (s : Option (Client Buffer)) (h : List Traffic),
      (machine Loopback 9 32 32).Run Polls s h ∧ s.isSome = true ∧
        wroteOn 1 h = (putOn 1 h).drop 35 ∧ ¬ wroteOn 1 h <+: putOn 1 h := by
  have run := Machine.run_replay (machine (σ := Buffer) Loopback 9 32 32) Polls overflow
    (by decide)
  exact ⟨_, _, run, by decide, by decide, by decide⟩

end Client
end Uppercut
