import Uppercut.Remote.Delivery
import Uppercut.Remote.Poison
import Uppercut.Remote.Readiness

/-!
# From one host to the other

The packets that a client puts on a connection pass its buffer, the network, the socket of the
server and the buffer of the connection actor. Until its packet is delivered, a byte waits at one
of these places, behind the bytes that were put before it.
-/

namespace Uppercut

open ByteStream LawfulByteStream SocketAddr

/-! ## The receiving end -/

def LinkLabel.arrives : LinkLabel → Bool
  | .arrive _ _ => true
  | _ => false

namespace Link

variable {σ α : Type} [ByteStream σ] [SocketAddr α]
variable {me : Tag} {host : α} {link t : Link σ} {h seen : List LinkObs} {packets : List Packet}

/-- The buffer has room for a read that gets bytes, and it ends near the end of a packet. -/
def ReadsNear (packets : List Packet) (link : Link σ) (h : List LinkObs) : LinkLabel → Prop
  | .handle _ _ => link.announced = true → link.unread ≠ [] → link.fits = true ∧
      ∃ done ∈ packets.inits,
        (bytesOf done).length ≤ (h.flatMap LinkObs.takes ++ link.unread.take 1024).length ∧
          (h.flatMap LinkObs.takes ++ link.unread.take 1024).length ≤ (bytesOf done).length + 14
  | _ => True

instance (packets : List Packet) (link : Link σ) (h : List LinkObs) :
    ∀ label, Decidable (ReadsNear packets link h label)
  | .handle _ _ => inferInstanceAs (Decidable (_ → _ → _ ∧ ∃ done ∈ packets.inits, _))
  | .arrive _ _ | .hangUp _ _ | .room _ | .poll => isTrue trivial

/-- Bytes arrive by themselves. -/
theorem arrives_of_step {label : LinkLabel} (taken : step me host link label = some (t, seen))
    (inside : ¬ label.arrives = true) : seen.flatMap LinkObs.arrives = [] := by
  cases step_cases taken with
  | arrive => exact absurd rfl inside
  | hangUp | room | poll => rfl
  | handle => exact LinkObs.arrives_handled _ _

variable [LawfulByteStream σ]

/-- An open connection has sent on the packets whose bytes it has read, and holds the bytes
behind them. -/
structure Holds (host : α) (packets : List Packet) (h : List LinkObs) (conn : Connection σ)
    (done : List Packet) (left : List UInt8) : Prop where
  unsent : len conn.sendBuf = 0
  before : done <+: packets
  shipped : sentOn h = shipped host done
  buffer : view conn.recvBuf = ⟨[], left⟩
  took : h.flatMap LinkObs.takes = bytesOf done ++ left
  short : left.length ≤ 14

/-- What was read and sent on, of what has arrived. -/
structure Relays (host : α) (packets : List Packet) (link : Link σ) (h : List LinkObs) :
    Prop where
  taken : h.flatMap LinkObs.takes ++ link.unread <+: h.flatMap LinkObs.arrives
  all : link.peer ≠ .reset →
    h.flatMap LinkObs.takes ++ link.unread = h.flatMap LinkObs.arrives
  sent : sentOn h <+: Uppercut.shipped host packets
  kept : ∀ conn, link.connection = some conn → conn.keepAlive = true
  held : ∀ conn, link.connection = some conn → conn.isOpen = true →
    ∃ done left, Holds host packets h conn done left

theorem relays_accepted {recvBufferSize sendBufferSize : Nat} :
    Relays host packets (accepted recvBufferSize sendBufferSize : Link σ) [] where
  taken := List.nil_prefix
  all _ := rfl
  sent := List.nil_prefix
  kept conn same := by
    cases same
    rfl
  held conn same _ := by
    cases same
    exact ⟨[], [], by simp [Connection.accepted, len_eq, view_withCapacity], List.nil_prefix, rfl,
      view_withCapacity _, rfl, Nat.zero_le _⟩

/-- Handling a message moves bytes from the socket to the connection. -/
theorem Relays.receive {answers writeAll : Bool} (relays : Relays host packets link h)
    (taken : step me host link (.handle answers writeAll) = some (t, seen))
    (sent : sentOn (h ++ seen) <+: Uppercut.shipped host packets)
    (kept : ∀ conn, t.connection = some conn → conn.keepAlive = true)
    (held : ∀ conn, t.connection = some conn → conn.isOpen = true →
      ∃ done left, Holds host packets (h ++ seen) conn done left) :
    Relays host packets t (h ++ seen) := by
  obtain ⟨ready, rest, conn, waiting, same, peer, split, pending, mailbox, connection, rfl⟩ :=
    step_handle taken
  refine ⟨?_, ?_, sent, kept, held⟩
  · rw [List.flatMap_append, List.flatMap_append, LinkObs.takes_handled, LinkObs.arrives_handled,
      List.append_assoc, split, List.append_nil]
    exact relays.taken
  · rw [List.flatMap_append, List.flatMap_append, LinkObs.takes_handled, LinkObs.arrives_handled,
      List.append_assoc, split, List.append_nil, peer]
    exact relays.all

/-- A connection that closes sends nothing on. -/
theorem Relays.close {answers writeAll : Bool} {ready : Ready} {conn next : Connection σ}
    (relays : Relays host packets link h)
    (taken : step me host link (.handle answers writeAll) = some (t, seen))
    (connection : t.connection = some next) (kept : next.keepAlive = true)
    (closed : next.isOpen = false)
    (shows : seen = .took (link.taking ready.isReadable) ::
      (conn.receive me (link.socket host answers writeAll) ready.work).1.map .called)
    (stops : (conn.receive me (link.socket host answers writeAll) ready.work).1 = [.stop me]) :
    Relays host packets t (h ++ seen) := by
  apply relays.receive taken
  · rw [shows, sentOn_append, sentOn_handled, stops]
    simpa [Call.sends] using relays.sent
  · intro conn' same'
    rw [connection] at same'
    cases same'
    exact kept
  · intro conn' same' opened
    rw [connection] at same'
    cases same'
    cases closed.symm.trans opened

variable [BoundedByteStream σ]

/-- An open connection reads up to a place near the end of a packet. -/
theorem Holds.receive {conn : Connection σ} {done : List Packet} {left : List UInt8}
    (holds : Holds host packets h conn done left) (same : link.connection = some conn)
    (fit : ∀ packet ∈ packets, packet.Fits)
    (opened : conn.isOpen = true) {ready : Ready} {answers writeAll : Bool}
    (sent : h.flatMap LinkObs.takes ++ link.unread <+: bytesOf packets)
    (reads : ready.isReadable = true → link.unread ≠ [])
    (near : ready.isReadable = true → link.fits = true ∧ ∃ near ∈ packets.inits,
      (bytesOf near).length ≤ (h.flatMap LinkObs.takes ++ link.unread.take 1024).length ∧
        (h.flatMap LinkObs.takes ++ link.unread.take 1024).length ≤ (bytesOf near).length + 14) :
    ∃ more rest recvBuf, done ++ more <+: packets ∧ view recvBuf = ⟨[], rest⟩ ∧
      left ++ link.taking ready.isReadable = bytesOf more ++ rest ∧ rest.length ≤ 14 ∧
      conn.receive me (link.socket host answers writeAll) ready.work =
        ((Connection.deliver (link.socket host answers writeAll) 0 more).1,
          if (Connection.deliver (link.socket host answers writeAll) 0 more).2 then
            some { conn with
              recvBuf := recvBuf
              canRead := ready.isReadable
              canWrite := conn.canWrite || ready.isWritable }
          else none) := by
  have filled : ∃ more rest, done ++ more <+: packets ∧
      left ++ link.taking ready.isReadable = bytesOf more ++ rest ∧ rest.length ≤ 14 := by
    cases readable : ready.isReadable with
    | false =>
        refine ⟨[], left, ?_, ?_, holds.short⟩
        · rw [List.append_nil]
          exact holds.before
        · simp [taking]
    | true =>
        obtain ⟨_, near, inside, low, high⟩ := near readable
        rw [holds.took, List.append_assoc] at low high
        apply rest_of_near holds.before ((List.mem_inits _ _).mp inside) _ low high
        refine List.IsPrefix.trans ⟨link.unread.drop 1024, ?_⟩ sent
        simp only [holds.took, List.append_assoc, List.take_append_drop]
  obtain ⟨more, rest, inside, enough, few⟩ := filled
  have buffer : view (conn.filled ready.isReadable (link.taking ready.isReadable)) =
      ⟨[], bytesOf more ++ rest⟩ := by
    rw [view_filled same fun readable => (near readable).1, holds.buffer, ← enough]
    rfl
  obtain ⟨recvBuf, drained, kept⟩ := drainAll_exact
    (fun packet mem => fit packet (inside.subset (List.mem_append_right _ mem))) few buffer
  exact ⟨more, rest, recvBuf, inside, kept, enough, few, Connection.receive_waits opened
    holds.unsent (fun readable => read_taking readable (reads readable)) drained⟩

/-- Handling a message sends the packets on that are complete then. -/
theorem Relays.handle {answers writeAll : Bool} (relays : Relays host packets link h)
    (fit : ∀ packet ∈ packets, packet.Fits)
    (arrived : h.flatMap LinkObs.arrives <+: bytesOf packets)
    (near : ReadsNear packets link h (.handle answers writeAll))
    (taken : step me host link (.handle answers writeAll) = some (t, seen)) :
    Relays host packets t (h ++ seen) := by
  obtain ⟨ready, rest, conn, waiting, same, peer, split, pending, mailbox, connection, shows⟩ :=
    step_handle taken
  have alive := relays.kept conn same
  by_cases opened : conn.isOpen = true
  case neg =>
    obtain ⟨next, result, closed, kept⟩ := @Connection.receive_closed σ α _ _ conn
      (link.socket host answers writeAll) ready.work me alive (Bool.eq_false_iff.mpr opened)
    rw [result] at connection
    exact relays.close taken connection kept closed shows (congrArg Prod.fst result)
  by_cases fails : ready.isReadable = true ∧ link.unread = []
  · obtain ⟨readable, nothing⟩ := fails
    have failed : (link.socket host answers writeAll).read = none ∨
        (link.socket host answers writeAll).read = some [] := by
      rw [socket, read, if_pos nothing]
      cases link.peer <;> simp
    have result := @Connection.receive_fails σ α _ _ me conn _ ready readable alive failed
    rw [result] at connection
    exact relays.close taken connection alive rfl shows (congrArg Prod.fst result)
  obtain ⟨done, left, holds⟩ := relays.held conn same opened
  have reads (readable : ready.isReadable = true) : link.unread ≠ [] :=
    fun nothing => fails ⟨readable, nothing⟩
  have announces (readable : ready.isReadable = true) : link.announced = true := by
    simpa [announced, waiting] using readable
  obtain ⟨more, following, recvBuf, inside, buffer, enough, few, result⟩ :=
    holds.receive same fit opened (relays.taken.trans arrived) reads
      fun readable => near (announces readable) (reads readable)
  obtain ⟨sends, answered⟩ := @deliver_socket σ α _ host link answers writeAll more
  have shown : sentOn (h ++ seen) = Uppercut.shipped host done ++
      if answers = true then Uppercut.shipped host more else [] := by
    rw [shows, sentOn_append, sentOn_handled, result, holds.shipped, sends]
  rw [result] at connection
  apply relays.receive taken
  · rw [shown]
    refine List.IsPrefix.trans ?_ (shipped_mono inside)
    rw [shipped_append]
    apply (List.prefix_append_right_inj _).mpr
    split
    · exact List.prefix_rfl
    · exact List.nil_prefix
  · intro conn' same'
    rw [connection] at same'
    split at same'
    · cases same'
      exact alive
    · cases same'
  · intro conn' same' _
    rw [connection] at same'
    split at same'
    case isFalse => cases same'
    case isTrue found =>
      cases same'
      refine ⟨done ++ more, following, holds.unsent, inside, ?_, buffer, ?_, few⟩
      · rw [shown, shipped_append]
        obtain answers | rfl := answered found
        · rw [if_pos answers]
        · split <;> rfl
      · rw [shows, List.flatMap_append, LinkObs.takes_handled, holds.took, List.append_assoc,
          enough, bytesOf_append, List.append_assoc]

theorem Relays.step {label : LinkLabel} (relays : Relays host packets link h)
    (fit : ∀ packet ∈ packets, packet.Fits)
    (arrived : h.flatMap LinkObs.arrives <+: bytesOf packets)
    (near : ReadsNear packets link h label) (taken : step me host link label = some (t, seen)) :
    Relays host packets t (h ++ seen) := by
  have aside {conn : Connection σ} {done : List Packet} {left : List UInt8} {x : LinkObs}
      (holds : Holds host packets h conn done left) (calls : x.calls = []) (takes : x.takes = []) :
      Holds host packets (h ++ [x]) conn done left := by
    refine ⟨holds.unsent, holds.before, ?_, holds.buffer, ?_, holds.short⟩
    · simpa [sentOn, calls] using holds.shipped
    · simpa [takes] using holds.took
  cases step_cases taken with
  | @arrive bytes _ _ alive =>
      have kept := relays.all fun reset => by cases alive.symm.trans reset
      have all : (h ++ [LinkObs.arrived bytes]).flatMap LinkObs.takes ++ (link.unread ++ bytes) =
          (h ++ [LinkObs.arrived bytes]).flatMap LinkObs.arrives := by
        simp [LinkObs.takes, LinkObs.arrives, ← kept]
      refine ⟨?_, ?_, ?_, relays.kept, ?_⟩
      · rw [all]
      · exact fun _ => all
      · simpa [sentOn, LinkObs.calls] using relays.sent
      · intro conn same opened
        obtain ⟨done, left, holds⟩ := relays.held conn same opened
        exact ⟨done, left, aside holds rfl rfl⟩
  | @hangUp reset =>
      rw [List.append_nil]
      refine ⟨?_, ?_, relays.sent, relays.kept, relays.held⟩
      · cases reset with
        | false => exact relays.taken
        | true =>
            refine List.IsPrefix.trans ?_ relays.taken
            simp
      · intro here
        cases reset with
        | false => exact relays.all fun reset => by cases Eq.trans ‹link.peer = .alive›.symm reset
        | true => exact absurd rfl here
  | room | poll =>
      rw [List.append_nil]
      exact ⟨relays.taken, relays.all, relays.sent, relays.kept, relays.held⟩
  | handle => exact relays.handle fit arrived near taken

end Link

/-! ## Both ends -/

/-- A connection with both of its ends. What the client's socket has accepted is in transit until
it arrives. -/
structure Wire (σ : Type) where
  client : Option (Client σ)
  transit : List UInt8
  link : Link σ

inductive WireLabel where
  /-- The client handles an envelope. -/
  | turn (turn : Client.Turn)
  /-- The first `n` bytes in transit arrive. -/
  | carry (n : Nat) (merges : Bool)
  | link (label : LinkLabel)
  deriving DecidableEq

inductive WireObs where
  | sender (traffic : Traffic)
  | receiver (obs : LinkObs)
  deriving DecidableEq

def WireObs.sender? : WireObs → Option Traffic
  | .sender traffic => some traffic
  | .receiver _ => none

def WireObs.receiver? : WireObs → Option LinkObs
  | .sender _ => none
  | .receiver obs => some obs

/-- The sizes of the buffers at both ends, and the port that the client tells its peers. -/
structure WireConfig where
  responsePort : UInt16
  clientRecv : Nat
  clientSend : Nat
  serverRecv : Nat
  serverSend : Nat

namespace Wire

section Machine

variable {σ α : Type} [ByteStream σ] [SocketAddr α]

def step (config : WireConfig) (id : Nat) (me : Tag) (host : α) (wire : Wire σ) :
    WireLabel → Option (Wire σ × List WireObs)
  | .turn turn =>
      ((Client.machine α config.responsePort config.clientRecv config.clientSend).step
        wire.client turn).map fun (client, seen) =>
          ({ wire with
            client := client
            transit := wire.transit ++ Client.wroteOn id seen }, seen.map .sender)
  | .carry n merges =>
      (wire.link.step me host (.arrive (wire.transit.take n) merges)).map fun (link, seen) =>
        ({ wire with transit := wire.transit.drop n, link := link }, seen.map .receiver)
  | .link label =>
      if label.arrives then none
      else (wire.link.step me host label).map fun (link, seen) =>
        ({ wire with link := link }, seen.map .receiver)

/-- The client's connection `id`, and the actor that the server spawned for it. -/
def machine (config : WireConfig) (id : Nat) (me : Tag) (host : α) :
    Machine (Wire σ) WireLabel WireObs where
  start :=
    { client := some (.new config.responsePort config.clientRecv config.clientSend)
      transit := []
      link := .accepted config.serverRecv config.serverSend }
  step := step config id me host

end Machine

def sent (h : List WireObs) : List Traffic := h.filterMap WireObs.sender?

def received (h : List WireObs) : List LinkObs := h.filterMap WireObs.receiver?

@[simp] theorem sent_append (h k : List WireObs) : sent (h ++ k) = sent h ++ sent k :=
  List.filterMap_append

@[simp] theorem received_append (h k : List WireObs) :
    received (h ++ k) = received h ++ received k :=
  List.filterMap_append

@[simp] theorem sent_sender (seen : List Traffic) : sent (seen.map .sender) = seen := by
  simp [sent, List.filterMap_map, Function.comp_def, WireObs.sender?]

@[simp] theorem received_sender (seen : List Traffic) : received (seen.map .sender) = [] := by
  simp [received, WireObs.receiver?]

@[simp] theorem sent_receiver (seen : List LinkObs) : sent (seen.map .receiver) = [] := by
  simp [sent, WireObs.sender?]

@[simp] theorem received_receiver (seen : List LinkObs) :
    received (seen.map .receiver) = seen := by
  simp [received, List.filterMap_map, Function.comp_def, WireObs.receiver?]

section Invariant

variable {σ α : Type} [ByteStream σ]

/-- No write takes some bytes, fails and leaves the connection open, and for each read that gets
bytes there is room, and it ends near the end of a packet. -/
def Gentle (packets : List Packet) (wire : Wire σ) (h : List WireObs) : WireLabel → Prop
  | .turn turn => Client.WritesOnce wire.client (sent h) turn
  | .carry _ _ => True
  | .link label => Link.ReadsNear packets wire.link (received h) label

instance (packets : List Packet) (wire : Wire σ) (h : List WireObs) :
    ∀ label, Decidable (Gentle packets wire h label)
  | .turn turn => inferInstanceAs (Decidable (Client.WritesOnce wire.client (sent h) turn))
  | .carry _ _ => isTrue trivial
  | .link label => inferInstanceAs (Decidable (Link.ReadsNear packets wire.link (received h) label))

variable [SocketAddr α] [LawfulByteStream σ]
variable {config : WireConfig} {id : Nat} {me : Tag} {host : α} {packets : List Packet}
variable {wire t : Wire σ} {h seen : List WireObs}

/-- What was stored has left the client's buffer or is in it, and what has left it is in transit or
has arrived. -/
structure Carries (id : Nat) (host : α) (packets : List Packet) (wire : Wire σ)
    (h : List WireObs) : Prop where
  parts : ∀ id bytes count, .put id bytes count ∈ sent h → count = bytes.length ∨ count = 0
  once : ∀ id, Client.wroteOn id (sent h) <+: Client.storedOn id (sent h)
  outbox : ∀ client, wire.client = some client → client.Outbox (sent h)
  transit : (received h).flatMap LinkObs.arrives ++ wire.transit = Client.wroteOn id (sent h)
  relays : wire.link.Relays host packets (received h)

theorem carries_start :
    Carries id host packets (machine config id me host : Machine (Wire σ) _ _).start [] where
  parts := nofun
  once _ := List.nil_prefix
  outbox client same := by
    cases same
    exact ⟨fun _ _ => ⟨rfl, rfl, rfl⟩, nofun, fun _ => List.nil_prefix⟩
  transit := rfl
  relays := Link.relays_accepted

variable [BoundedByteStream σ]

/-- The packets are those that are stored until the end. -/
theorem Carries.step {label : WireLabel} (carries : Carries id host packets wire h)
    (fit : ∀ packet ∈ packets, packet.Fits)
    (stored : Client.storedOn id (sent (h ++ seen)) <+: bytesOf packets)
    (gentle : Gentle packets wire h label)
    (taken : Wire.step config id me host wire label = some (t, seen)) :
    Carries id host packets t (h ++ seen) := by
  have arrived : (received h).flatMap LinkObs.arrives <+: bytesOf packets := by
    have wrote : (received h).flatMap LinkObs.arrives <+: Client.wroteOn id (sent h) :=
      ⟨_, carries.transit⟩
    rw [sent_append, Client.storedOn_append] at stored
    exact (wrote.trans (carries.once id)).trans ((List.prefix_append _ _).trans stored)
  cases label with
  | turn turn =>
      obtain ⟨⟨client', traffic⟩, stepped, same⟩ := Option.map_eq_some_iff.mp taken
      cases same
      obtain ⟨client, known, rfl, rfl⟩ := Client.machine_step stepped
      have whole : Client.WritesOnce (some client) (sent h) turn := known ▸ gentle
      obtain ⟨once, outbox⟩ := (carries.outbox client known).receive (α := α) clientTag whole
      refine ⟨?_, ?_, ?_, ?_, ?_⟩
      · intro other bytes count mem
        rw [sent_append, sent_sender] at mem
        exact (List.mem_append.mp mem).elim (carries.parts other bytes count) Client.receive_stored
      · simpa using once
      · simpa using outbox
      · simp only [received_append, received_sender, sent_append, sent_sender, List.append_nil,
          Client.wroteOn_append, ← carries.transit, List.append_assoc]
      · simpa using carries.relays
  | carry n merges =>
      obtain ⟨⟨link, arrival⟩, stepped, same⟩ := Option.map_eq_some_iff.mp taken
      cases same
      have near : Link.ReadsNear packets wire.link (received h)
        (.arrive (wire.transit.take n) merges) := trivial
      have relays := carries.relays.step fit arrived near stepped
      have bytes : arrival.flatMap LinkObs.arrives = wire.transit.take n := by
        cases Link.step_cases stepped
        simp [LinkObs.arrives]
      refine ⟨?_, ?_, ?_, ?_, ?_⟩
      · simpa using carries.parts
      · simpa using carries.once
      · simpa using carries.outbox
      · simp only [received_append, received_receiver, sent_append, sent_receiver, List.append_nil,
          List.flatMap_append, bytes, List.append_assoc, List.take_append_drop, carries.transit]
      · simpa using relays
  | link label =>
      rw [Wire.step] at taken
      split at taken
      case isTrue => cases taken
      case isFalse inside =>
        obtain ⟨⟨link, shown⟩, stepped, same⟩ := Option.map_eq_some_iff.mp taken
        cases same
        have relays := carries.relays.step fit arrived gentle stepped
        refine ⟨?_, ?_, ?_, ?_, ?_⟩
        · simpa using carries.parts
        · simpa using carries.once
        · simpa using carries.outbox
        · simpa [Link.arrives_of_step stepped inside] using carries.transit
        · simpa using relays

theorem machine_carries (fit : ∀ packet ∈ packets, packet.Fits)
    (run : (machine config id me host).Run (Gentle packets) wire h)
    (stored : Client.storedOn id (sent h) <+: bytesOf packets) :
    Carries id host packets wire h := by
  induction run with
  | start => exact carries_start
  | @step s t h label seen before gentle taken ih =>
      have less : Client.storedOn id (sent h) <+: bytesOf packets := by
        rw [sent_append, Client.storedOn_append] at stored
        exact (List.prefix_append _ _).trans stored
      exact (ih less).step fit stored gentle taken

/-- **From one host to the other.** The packets that the buffer of the client's connection stores
are within the limit. In every run in which no write takes some bytes, fails and leaves the
connection open, and in which there is room for each read that gets bytes and it ends near the end
of a packet: a packet that is put is stored or dropped as a whole, and the envelopes that the
connection actor sends on are those of the first packets that were stored, unchanged, in their
order and once each. While both ends are open and the peer has not reset the connection, each byte
that was stored belongs to a packet that was sent on, or waits in one of the buffers or in transit,
and when none waits before the last buffer, everything was sent on. -/
theorem remote_fifo (fit : ∀ packet ∈ packets, packet.Fits)
    (run : (machine config id me host).Run (Gentle packets) wire h)
    (stored : Client.storedOn id (sent h) = bytesOf packets) :
    (∀ bytes count, .put id bytes count ∈ sent h → count = bytes.length ∨ count = 0) ∧
    sentOn (received h) <+: shipped host packets ∧
    ∀ client own remote, wire.client = some client → client.connections id = some own →
      wire.link.connection = some remote → remote.isOpen = true → wire.link.peer ≠ .reset →
      (∃ done, done <+: packets ∧ sentOn (received h) = shipped host done ∧
        bytesOf packets = bytesOf done ++ (view remote.recvBuf).ahead ++ wire.link.unread ++
          wire.transit ++ (view own.sendBuf).ahead) ∧
      (wire.link.unread = [] → wire.transit = [] → (view own.sendBuf).ahead = [] →
        sentOn (received h) = shipped host packets) := by
  have carries := machine_carries fit run (stored ▸ List.prefix_rfl)
  refine ⟨carries.parts id, carries.relays.sent, ?_⟩
  intro client own remote here known there opened kept
  obtain ⟨done, left, holds⟩ := carries.relays.held remote there opened
  have whole : bytesOf packets = bytesOf done ++ (view remote.recvBuf).ahead ++ wire.link.unread ++
      wire.transit ++ (view own.sendBuf).ahead := by
    have arrived := carries.relays.all kept
    rw [holds.took] at arrived
    rw [holds.buffer, ← stored, ← ((carries.outbox client here).held id own known).2,
      ← carries.transit, ← arrived]
  refine ⟨⟨done, holds.before, holds.shipped, whole⟩, ?_⟩
  intro unread transit unsent
  obtain ⟨later, rfl⟩ := holds.before
  -- A packet behind those that were sent on would be longer than what waits.
  rw [unread, transit, unsent, holds.buffer, bytesOf_append] at whole
  have short := holds.short
  have none : later = [] := by
    apply eq_nil_of_bytesOf fun packet mem => fit packet (List.mem_append_right _ mem)
    have sizes := congrArg List.length whole
    simp only [List.length_append, List.length_nil] at sizes
    omega
  rw [none, List.append_nil, holds.shipped]

end Invariant

/-- Two packets are put, go out in one write and arrive in two pieces. -/
def crossing : List WireLabel :=
  [.turn (Client.sending "a@127.0.0.1:80" [1, 2]), .turn (Client.sending "c@127.0.0.1:80" [3]),
    .turn (Client.polling [Client.writes 1]), .carry 20 false, .link .poll,
    .link (.handle true true), .carry 50 false, .link .poll, .link (.handle true true)]

def crossed : List Packet := [⟨"a", "", [1, 2], 9⟩, ⟨"c", "", [3], 9⟩]

theorem remote_fifo_crossing :
    ∃ (wire : Wire Buffer) (h : List WireObs),
      (machine ⟨9, 64, 64, 64, 64⟩ 1 "server#1" (⟨5000⟩ : Loopback)).Run (Gentle crossed)
        wire h ∧
        (sentOn (received h)).length = 2 ∧
        sentOn (received h) <+: shipped (⟨5000⟩ : Loopback) crossed := by
  have run := Machine.run_replay
    (machine (σ := Buffer) ⟨9, 64, 64, 64, 64⟩ 1 "server#1" (⟨5000⟩ : Loopback))
    (Gentle crossed) crossing (by decide)
  exact ⟨_, _, run, by decide, (remote_fifo (by decide) run (by decide)).2.1⟩

end Wire
end Uppercut
