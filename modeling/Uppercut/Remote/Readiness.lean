import Uppercut.Remote.Link

/-!
# One read for each event

The server polls an event, and the connection reads once when it handles the message about it.
By then an earlier message may have led to a read of the same bytes. The socket would block,
and the connection takes that for a failure and closes. Or there are more bytes than a read
takes, and the others stay where they are until the peer sends again. Bytes that the buffer has no
room for are lost.
-/

namespace Uppercut

open ByteStream LawfulByteStream BoundedByteStream SocketAddr

/-! ## What one message does -/

section Receive

variable {σ α : Type} [ByteStream σ] [SocketAddr α] {me tag : Tag} {conn : Connection σ}

namespace Connection

theorem deliver_stop (socket : Socket α) (i : Nat) (packets : List Packet) :
    .stop tag ∉ (deliver socket i packets).1 := by
  induction packets generalizing i with
  | nil => exact List.not_mem_nil
  | cons packet packets ih =>
      rw [deliver]
      split
      · exact List.not_mem_nil
      · simpa [delivered] using ih (i + 1)

/-- An open connection that gets bytes, or is not told to read, goes on with its buffer. -/
theorem receive_goes_on {socket : Socket α} {ready : Ready} {bytes : List UInt8}
    (opened : conn.isOpen = true)
    (answer : ready.isReadable = true → socket.read = some bytes ∧ bytes ≠ []) :
    conn.receive me socket ready.work = process me socket { conn with
      recvBuf := conn.filled ready.isReadable bytes
      canRead := ready.isReadable
      canWrite := conn.canWrite || ready.isWritable } := by
  obtain ⟨isReadable, isWritable⟩ := ready
  cases isReadable with
  | false => simp [receive, Ready.work, Envelope.of, keepOpen, opened, filled]
  | true =>
      obtain ⟨found, more⟩ := answer rfl
      obtain ⟨byte, rest, rfl⟩ := List.exists_cons_of_ne_nil more
      simp [receive, Ready.work, Envelope.of, read, found, keepOpen, opened, filled]

/-- An open connection with nothing to write delivers the packets and stays open, when there is
something to read. -/
theorem receive_waits {socket : Socket α} {ready : Ready} {bytes : List UInt8}
    {packets : List Packet} {recvBuf : σ} (opened : conn.isOpen = true)
    (unsent : len conn.sendBuf = 0)
    (answer : ready.isReadable = true → socket.read = some bytes ∧ bytes ≠ [])
    (drained : drainAll (conn.filled ready.isReadable bytes) = (packets, recvBuf, .waits)) :
    conn.receive me socket ready.work = ((deliver socket 0 packets).1,
      if (deliver socket 0 packets).2 then
        some { conn with
          recvBuf := recvBuf
          canRead := ready.isReadable
          canWrite := conn.canWrite || ready.isWritable }
      else none) := by
  rw [receive_goes_on opened answer]
  cases answered : (deliver socket 0 packets).2 <;>
    simp [process, drained, answered, flush, unsent, keepOpen, opened]

/-- A read that fails closes the connection. -/
theorem receive_fails {socket : Socket α} {ready : Ready} (readable : ready.isReadable = true)
    (kept : conn.keepAlive = true) (fails : socket.read = none ∨ socket.read = some []) :
    conn.receive me socket ready.work = ([.stop me], some { conn with
      isOpen := false
      canRead := true
      canWrite := conn.canWrite || ready.isWritable }) := by
  obtain fails | fails := fails <;>
    simp [receive, Ready.work, Envelope.of, readable, read, fails, keepOpen, kept]

/-- A connection that is open was open before, and did not fail to read. -/
theorem receive_kept {socket : Socket α} {ready : Ready} {next : Connection σ}
    (kept : conn.keepAlive = true) (result : (conn.receive me socket ready.work).2 = some next) :
    next.keepAlive = true ∧ (next.isOpen = true → conn.isOpen = true ∧
      (ready.isReadable = true → ∃ bytes, socket.read = some bytes ∧ bytes ≠ [])) := by
  obtain ⟨heard, alive, opens, fails, same⟩ :=
    @receive_work σ α _ _ conn socket ready.work me kept ready.isReadable ready.isWritable rfl
  rw [same] at result
  cases opened : heard.isOpen with
  | false =>
      rw [opened] at result
      cases result
      refine ⟨alive, fun still => ?_⟩
      rw [opened] at still
      cases still
  | true =>
      rw [opened, if_pos rfl] at result
      refine ⟨(process_kept alive result).1, fun _ => ⟨opens opened, fun readable => ?_⟩⟩
      -- A failed read would have closed it.
      have answered := mt (fails readable) (by simp [opened])
      cases answer : socket.read with
      | none => exact absurd (.inl answer) answered
      | some bytes =>
          refine ⟨bytes, rfl, fun nothing => answered (.inr ?_)⟩
          rw [answer, nothing]

theorem flush_recvBuf (writeAll : Bool) (conn : Connection σ) :
    (conn.flush writeAll).recvBuf = conn.recvBuf := by
  unfold flush
  split
  · split <;> rfl
  · rfl

/-- A connection that is open afterwards has delivered the packets that the loop took out. -/
theorem process_open {socket : Socket α} {next : Connection σ} (alive : conn.keepAlive = true)
    (result : (conn.process me socket).2 = some next) (opened : next.isOpen = true) :
    ∃ packets, drainAll conn.recvBuf = (packets, next.recvBuf, .waits) ∧
      (deliver socket 0 packets).2 = true ∧
      (conn.process me socket).1 = (deliver socket 0 packets).1 := by
  revert result
  unfold process
  dsimp only
  split
  case isTrue => nofun
  case isFalse answered =>
  rw [Bool.not_eq_true', Bool.not_eq_false] at answered
  split
  case h_1 | h_2 => nofun
  case h_3 =>
    obtain ⟨same, opens⟩ := flush_frame socket.writeAll
      ({ conn with recvBuf := (drainAll conn.recvBuf).2.1, isOpen := false } : Connection σ)
    rw [keepOpen_alive (same.trans alive)]
    rintro ⟨⟩
    exact absurd (opens opened) Bool.false_ne_true
  case h_4 waits =>
    obtain ⟨same, _⟩ := flush_frame socket.writeAll
      ({ conn with recvBuf := (drainAll conn.recvBuf).2.1 } : Connection σ)
    rw [keepOpen_alive (same.trans alive)]
    rintro ⟨⟩
    refine ⟨_, ?_, answered, ?_⟩
    · rw [flush_recvBuf, ← waits]
    · rw [if_pos opened, List.append_nil]

/-- What the buffer has no room for is lost. -/
theorem filled_full [LawfulByteStream σ] [BoundedByteStream σ] {bytes : List UInt8}
    (full : cap conn.recvBuf < bytes.length) :
    view (conn.filled true bytes) = view conn.recvBuf :=
  (put_full conn.recvBuf bytes full).2

end Connection
end Receive

namespace Link

variable {σ α : Type} [ByteStream σ] [SocketAddr α]
variable {me : Tag} {host : α} {recvBufferSize sendBufferSize : Nat}
variable {link t : Link σ} {h seen : List LinkObs} {packets : List Packet}

/-- What a readable message is about to take. -/
def taking (link : Link σ) (isReadable : Bool) : List UInt8 :=
  if isReadable then link.unread.take 1024 else []

omit [ByteStream σ] in
theorem read_taking {isReadable : Bool} (readable : isReadable = true)
    (some_bytes : link.unread ≠ []) :
    link.read = some (link.taking isReadable) ∧ link.taking isReadable ≠ [] := by
  rw [taking, if_pos readable, read, if_neg some_bytes]
  exact ⟨rfl, by simpa using some_bytes⟩

omit [ByteStream σ] in
theorem unread_of_read {bytes : List UInt8} (answer : link.read = some bytes) (more : bytes ≠ []) :
    link.unread ≠ [] := by
  intro nothing
  rw [read, if_pos nothing] at answer
  split at answer
  · cases answer
    exact more rfl
  · cases answer
  · cases answer

/-- What one step changes. -/
inductive Step (me : Tag) (host : α) (link : Link σ) :
    LinkLabel → Link σ → List LinkObs → Prop where
  | arrive {bytes : List UInt8} {merges : Bool} (more : bytes ≠ []) (alive : link.peer = .alive) :
      Step me host link (.arrive bytes merges)
        { link with
          unread := link.unread ++ bytes
          pending := Ready.raise ⟨true, false⟩ merges link.pending } [.arrived bytes]
  | hangUp {reset merges : Bool} (alive : link.peer = .alive) :
      Step me host link (.hangUp reset merges)
        { link with
          peer := if reset then .reset else .closed
          unread := if reset then [] else link.unread
          pending := Ready.raise ⟨true, true⟩ merges link.pending } []
  | room {merges : Bool} :
      Step me host link (.room merges)
        { link with pending := Ready.raise ⟨false, true⟩ merges link.pending } []
  | poll {ready : Ready} {rest : List Ready} (waiting : link.pending = ready :: rest) :
      Step me host link .poll
        { link with pending := rest, mailbox := link.mailbox ++ [ready] } []
  | handle {answers writeAll : Bool} {ready : Ready} {rest : List Ready} {conn : Connection σ}
      (waiting : link.mailbox = ready :: rest) (same : link.connection = some conn) :
      Step me host link (.handle answers writeAll)
        { link with
          unread := if ready.isReadable then link.unread.drop 1024 else link.unread
          mailbox := rest
          connection := (conn.receive me (link.socket host answers writeAll) ready.work).2 }
        (.took (link.taking ready.isReadable) ::
          (conn.receive me (link.socket host answers writeAll) ready.work).1.map .called)

theorem step_cases {label : LinkLabel} (taken : step me host link label = some (t, seen)) :
    Step me host link label t seen := by
  cases label with
  | arrive bytes merges =>
      rw [step] at taken
      split at taken
      case isFalse => cases taken
      case isTrue met =>
        cases taken
        exact .arrive met.1 met.2
  | hangUp reset merges =>
      rw [step] at taken
      split at taken
      case isFalse => cases taken
      case isTrue alive =>
        cases taken
        exact .hangUp alive
  | room merges =>
      cases taken
      exact .room
  | poll =>
      rw [step] at taken
      split at taken
      case h_1 => cases taken
      case h_2 ready rest waiting =>
        cases taken
        exact .poll waiting
  | handle answers writeAll =>
      rw [step] at taken
      split at taken
      case h_2 => cases taken
      case h_1 ready rest conn waiting same =>
        cases taken
        exact .handle waiting same

/-- What a step does that handles a message. -/
theorem step_handle {answers writeAll : Bool}
    (taken : step me host link (.handle answers writeAll) = some (t, seen)) :
    ∃ ready rest conn, link.mailbox = ready :: rest ∧ link.connection = some conn ∧
      t.peer = link.peer ∧ link.taking ready.isReadable ++ t.unread = link.unread ∧
      t.pending = link.pending ∧ t.mailbox = rest ∧
      t.connection = (conn.receive me (link.socket host answers writeAll) ready.work).2 ∧
      seen = .took (link.taking ready.isReadable) ::
        (conn.receive me (link.socket host answers writeAll) ready.work).1.map .called := by
  cases step_cases taken with
  | @handle _ _ ready rest conn waiting same =>
      refine ⟨ready, rest, conn, waiting, same, rfl, ?_, rfl, rfl, rfl, rfl⟩
      cases readable : ready.isReadable with
      | false => simp [taking]
      | true => simp [taking, List.take_append_drop]

/-- A peer that hung up does not come back. -/
theorem alive_of_step {label : LinkLabel} (taken : step me host link label = some (t, seen))
    (alive : t.peer = .alive) : link.peer = .alive := by
  cases step_cases taken with
  | arrive _ there | hangUp there => exact there
  | room | poll | handle => exact alive

end Link

/-! ## Connections of healthy peers -/

/-- What follows the packets that were taken out, up to a place near the end of a packet. -/
theorem rest_of_near {packets done near : List Packet} {left : List UInt8}
    (before : done <+: packets) (inside : near <+: packets)
    (sent : bytesOf done ++ left <+: bytesOf packets)
    (low : (bytesOf near).length ≤ (bytesOf done ++ left).length)
    (high : (bytesOf done ++ left).length ≤ (bytesOf near).length + 14) :
    ∃ more rest, done ++ more <+: packets ∧ left = bytesOf more ++ rest ∧ rest.length ≤ 14 := by
  rw [List.length_append] at low high
  obtain ⟨more, rfl⟩ | ⟨more, rfl⟩ := List.prefix_or_prefix_of_prefix before inside
  · rw [bytesOf_append, List.length_append] at low high
    obtain ⟨later, rfl⟩ := inside
    rw [bytesOf_append, bytesOf_append, List.append_assoc, List.prefix_append_right_inj] at sent
    obtain ⟨rest, rfl⟩ := List.prefix_of_prefix_length_le (List.prefix_append _ _) sent
      (show (bytesOf more).length ≤ left.length by omega)
    rw [List.length_append] at high
    exact ⟨more, rest, List.prefix_append _ _, rfl, by omega⟩
  · rw [bytesOf_append, List.length_append] at high
    exact ⟨[], left, by rwa [List.append_nil], rfl, by omega⟩

namespace Link

variable {σ α : Type} [ByteStream σ] [SocketAddr α]
variable {me : Tag} {host : α} {recvBufferSize sendBufferSize : Nat}
variable {link t : Link σ} {h seen : List LinkObs} {packets : List Packet}

/-- The next message announces bytes. -/
def announced (link : Link σ) : Bool := link.mailbox.head?.any Ready.isReadable

/-- The connection's buffer has room for what a read takes. -/
def fits (link : Link σ) : Bool :=
  link.connection.all fun conn => decide ((link.unread.take 1024).length ≤ cap conn.recvBuf)

/-- A message that announces bytes finds some, the buffer has room for them, and what was read then
ends near the end of a packet. -/
def Timely (packets : List Packet) (link : Link σ) (h : List LinkObs) : LinkLabel → Prop
  | .handle _ _ => link.announced = true → link.unread ≠ [] ∧ link.fits = true ∧
      ∃ done ∈ packets.inits,
        (bytesOf done).length ≤ (h.flatMap LinkObs.takes ++ link.unread.take 1024).length ∧
          (h.flatMap LinkObs.takes ++ link.unread.take 1024).length ≤ (bytesOf done).length + 14
  | _ => True

instance (packets : List Packet) (link : Link σ) (h : List LinkObs) :
    ∀ label, Decidable (Timely packets link h label)
  | .handle _ _ => inferInstanceAs (Decidable (_ → _ ∧ _ ∧ ∃ done ∈ packets.inits, _))
  | .arrive _ _ | .hangUp _ _ | .room _ | .poll => isTrue trivial

section Lawful

variable [LawfulByteStream σ] [BoundedByteStream σ]

/-- A read that fits is behind what was in the buffer. -/
theorem view_filled {conn : Connection σ} (same : link.connection = some conn) {isReadable : Bool}
    (fits : isReadable = true → link.fits = true) :
    view (conn.filled isReadable (link.taking isReadable)) =
      (view conn.recvBuf).append (link.taking isReadable) := by
  cases isReadable with
  | false => simp [Connection.filled, taking]
  | true =>
      have room : (link.unread.take 1024).length ≤ cap conn.recvBuf := by
        simpa [Link.fits, same] using fits rfl
      exact (put_fits conn.recvBuf _ room).2

omit [BoundedByteStream σ]

/-- The connection is open, and holds what follows the complete packets that were read. -/
structure Healthy (packets : List Packet) (link : Link σ) (h : List LinkObs) : Prop where
  arrived : h.flatMap LinkObs.takes ++ link.unread = h.flatMap LinkObs.arrives
  calm : ∀ tag, .called (.stop tag) ∉ h
  opened : ∀ conn, link.connection = some conn → conn.isOpen = true ∧ len conn.sendBuf = 0
  buffered : ∀ conn, link.connection = some conn → ∃ done left, done <+: packets ∧
    view conn.recvBuf = ⟨[], left⟩ ∧ h.flatMap LinkObs.takes = bytesOf done ++ left ∧
    left.length ≤ 14

theorem healthy_accepted :
    Healthy packets (accepted recvBufferSize sendBufferSize : Link σ) [] where
  arrived := rfl
  calm _ := List.not_mem_nil
  opened := by
    intro conn same
    cases same
    exact ⟨rfl, by simp [Connection.accepted, len_eq, view_withCapacity]⟩
  buffered := by
    intro conn same
    cases same
    exact ⟨[], [], List.nil_prefix, view_withCapacity _, rfl, Nat.zero_le _⟩

variable [BoundedByteStream σ]

/-- Handling a message in time keeps the connection open. -/
theorem Healthy.handle {answers writeAll : Bool} (healthy : Healthy packets link h)
    (small : ∀ packet ∈ packets, packet.toBytes.length ≤ packetSizeLimit)
    (sent : h.flatMap LinkObs.arrives <+: bytesOf packets)
    (timely : Timely packets link h (.handle answers writeAll))
    (taken : step me host link (.handle answers writeAll) = some (t, seen)) :
    Healthy packets t (h ++ seen) := by
  obtain ⟨ready, rest, conn, waiting, same, peer, split, pending, mailbox, connection, rfl⟩ :=
    step_handle taken
  obtain ⟨opened, unsent⟩ := healthy.opened conn same
  obtain ⟨done, left, before, holds, took, short⟩ := healthy.buffered conn same
  have announces (readable : ready.isReadable = true) : link.announced = true := by
    simpa [announced, waiting] using readable
  have filled : ∃ more rest, done ++ more <+: packets ∧
      left ++ link.taking ready.isReadable = bytesOf more ++ rest ∧ rest.length ≤ 14 := by
    cases readable : ready.isReadable with
    | false =>
        refine ⟨[], left, ?_, ?_, short⟩
        · rwa [List.append_nil]
        · simp [taking]
    | true =>
        obtain ⟨_, _, near, inside, low, high⟩ := timely (announces readable)
        rw [took, List.append_assoc] at low high
        apply rest_of_near before ((List.mem_inits _ _).mp inside) _ low high
        refine List.IsPrefix.trans ⟨link.unread.drop 1024, ?_⟩ sent
        rw [← healthy.arrived, took]
        simp only [List.append_assoc, List.take_append_drop]
  obtain ⟨more, following, inside, enough, few⟩ := filled
  have buffer : view (conn.filled ready.isReadable (link.taking ready.isReadable)) =
      ⟨[], bytesOf more ++ following⟩ := by
    rw [view_filled same fun readable => (timely (announces readable)).2.1, holds, ← enough]
    rfl
  obtain ⟨first, recvBuf, left', drained, kept, within, whole, near⟩ := drainAll_near
    (fun packet mem => small packet (inside.subset (List.mem_append_right _ mem))) few buffer
  have result := @Connection.receive_waits σ α _ _ me conn (link.socket host answers writeAll)
    ready _ _ _ opened unsent
    (fun readable => read_taking readable (timely (announces readable)).1) drained
  rw [result] at connection
  rw [result]
  refine ⟨?_, ?_, ?_, ?_⟩
  · rw [List.flatMap_append, List.flatMap_append, LinkObs.takes_handled, LinkObs.arrives_handled,
      List.append_assoc, split, List.append_nil, healthy.arrived]
  · intro tag stopped
    obtain stopped | stopped := List.mem_append.mp stopped
    · exact healthy.calm tag stopped
    · simp [Connection.deliver_stop] at stopped
  · intro next open_next
    rw [connection] at open_next
    split at open_next
    · cases open_next
      exact ⟨opened, unsent⟩
    · cases open_next
  · intro next open_next
    rw [connection] at open_next
    split at open_next
    · cases open_next
      refine ⟨done ++ first, left', ?_, kept, ?_, near⟩
      · exact ((List.prefix_append_right_inj done).mpr within).trans inside
      · rw [List.flatMap_append, LinkObs.takes_handled, took, List.append_assoc, enough, whole,
          bytesOf_append, List.append_assoc]
    · cases open_next

/-- The observations of a run of healthy steps. -/
theorem Healthy.step {label : LinkLabel} (healthy : Healthy packets link h)
    (small : ∀ packet ∈ packets, packet.toBytes.length ≤ packetSizeLimit)
    (alive : t.peer = .alive) (sent : (h ++ seen).flatMap LinkObs.arrives <+: bytesOf packets)
    (timely : Timely packets link h label) (taken : step me host link label = some (t, seen)) :
    Healthy packets t (h ++ seen) := by
  cases step_cases taken with
  | arrive =>
      refine ⟨?_, ?_, healthy.opened, ?_⟩
      · simp [LinkObs.takes, LinkObs.arrives, ← healthy.arrived]
      · simpa using healthy.calm
      · simpa [LinkObs.takes] using healthy.buffered
  | @hangUp reset => cases reset <;> cases alive
  | room | poll =>
      rw [List.append_nil]
      exact ⟨healthy.arrived, healthy.calm, healthy.opened, healthy.buffered⟩
  | handle =>
      refine healthy.handle small ?_ timely taken
      rw [List.flatMap_append] at sent
      exact (List.prefix_append _ _).trans sent

/-- **Healthy connections stay open.** The peer is there and sends packets. In every run in which
each message that announces bytes finds some, and is followed by a read for which the buffer has
room and which ends near the end of a packet: the connection is open and does not ask to be
stopped. -/
theorem connection_kept
    (small : ∀ packet ∈ packets, packet.toBytes.length ≤ packetSizeLimit)
    (run : (machine me host recvBufferSize sendBufferSize).Run (Timely packets) link h)
    (alive : link.peer = .alive) (sent : h.flatMap LinkObs.arrives <+: bytesOf packets) :
    (∀ conn, link.connection = some conn → conn.isOpen = true) ∧
      ∀ tag, .called (.stop tag) ∉ h := by
  have healthy : Healthy packets link h := by
    induction run with
    | start => exact healthy_accepted
    | @step s t h label seen before timely taken ih =>
        have earlier := alive_of_step taken alive
        have less : h.flatMap LinkObs.arrives <+: bytesOf packets := by
          rw [List.flatMap_append] at sent
          exact (List.prefix_append _ _).trans sent
        exact (ih earlier less).step small alive sent timely taken
  exact ⟨fun conn same => (healthy.opened conn same).1, healthy.calm⟩

end Lawful

/-- Two arrivals, each of them read in time. -/
def punctual : List LinkLabel :=
  [.arrive ((bytesOf letters).take 20) false, .poll, .handle true true, .room false,
    .arrive ((bytesOf letters).drop 20) false, .poll, .poll, .handle true true, .handle true true]

theorem connection_kept_punctual :
    ∃ (link : Link Buffer) (h : List LinkObs),
      (machine "server#1" (⟨80⟩ : Loopback) 64 64).Run (Timely letters) link h ∧
        h.flatMap LinkObs.takes = bytesOf letters ∧
        (∀ conn, link.connection = some conn → conn.isOpen = true) ∧
        ∀ tag, .called (.stop tag) ∉ h := by
  have run := Machine.run_replay (machine (σ := Buffer) "server#1" (⟨80⟩ : Loopback) 64 64)
    (Timely letters) punctual (by decide)
  exact ⟨_, _, run, by decide, connection_kept (by decide) run (by decide) (by decide)⟩

/-- Two arrivals and two polls, and the first message leads to a read of all the bytes. -/
def outdated : List LinkLabel :=
  [.arrive ((bytesOf letters).take 20) false, .poll, .arrive ((bytesOf letters).drop 20) false,
    .poll, .handle true true, .handle true true]

/-- The second message finds nothing to read. -/
theorem connection_closed :
    (∀ packet ∈ letters, packet.toBytes.length ≤ packetSizeLimit) ∧
      ∃ (link : Link Buffer) (h : List LinkObs),
        (machine "server#1" (⟨80⟩ : Loopback) 64 64).Reached link h ∧ link.peer = .alive ∧
          h.flatMap LinkObs.arrives <+: bytesOf letters ∧
          (∃ conn, link.connection = some conn ∧ conn.isOpen = false) ∧
          .called (.stop "server#1") ∈ h := by
  have run := Machine.run_replay (machine (σ := Buffer) "server#1" (⟨80⟩ : Loopback) 64 64)
    (fun _ _ _ => True) outdated (by decide)
  exact ⟨by decide, _, _, run, by decide, by decide, ⟨_, rfl, by decide⟩, by decide⟩

/-- A message that announces bytes where there are none closes the connection. -/
theorem handle_outdated {answers writeAll : Bool} {conn : Connection σ}
    (taken : step me host link (.handle answers writeAll) = some (t, seen))
    (announces : link.announced = true) (nothing : link.unread = [])
    (same : link.connection = some conn) (kept : conn.keepAlive = true) :
    (∃ next, t.connection = some next ∧ next.isOpen = false) ∧ .called (.stop me) ∈ seen := by
  obtain ⟨ready, rest, _, waiting, same', _, _, _, _, connection, rfl⟩ := step_handle taken
  rw [same'] at same
  cases same
  have readable : ready.isReadable = true := by simpa [announced, waiting] using announces
  have fails : (link.socket host answers writeAll).read = none ∨
      (link.socket host answers writeAll).read = some [] := by
    rw [socket, read, if_pos nothing]
    cases link.peer <;> simp
  rw [Connection.receive_fails readable kept fails] at connection
  rw [Connection.receive_fails readable kept fails]
  exact ⟨⟨_, connection, rfl⟩, by simp⟩

/-! ## Bytes that nobody asks for -/

/-- Something was polled or will be polled that leads to a read. -/
def Asked (link : Link σ) : Prop := ∃ ready ∈ link.pending ++ link.mailbox, ready.isReadable = true

instance (link : Link σ) : Decidable link.Asked :=
  inferInstanceAs (Decidable (∃ ready ∈ link.pending ++ link.mailbox, _))

omit [ByteStream σ] in
theorem asked_of_raise {ready : Ready} {merges : Bool} {unread : List UInt8} {peer : Peer}
    (asked : ready.isReadable = true ∨ link.Asked) :
    Asked
      { link with peer := peer, unread := unread, pending := ready.raise merges link.pending } := by
  obtain raised | ⟨event, mem, announces⟩ := asked
  · obtain ⟨event, mem, announces⟩ := (ready.raise_isReadable merges link.pending).mpr (.inl raised)
    exact ⟨event, List.mem_append_left _ mem, announces⟩
  obtain mem | mem := List.mem_append.mp mem
  · obtain ⟨event, mem, announces⟩ :=
      (ready.raise_isReadable merges link.pending).mpr (.inr ⟨event, mem, announces⟩)
    exact ⟨event, List.mem_append_left _ mem, announces⟩
  · exact ⟨event, List.mem_append_right _ mem, announces⟩

/-- The buffer has room for a read, and one that does not take all the bytes is not the last one
that was asked for. -/
def Followed (link : Link σ) (_ : List LinkObs) : LinkLabel → Prop
  | .handle _ _ => link.announced = true → link.fits = true ∧ (link.unread.length ≤ 1024 ∨
      Asked { link with mailbox := link.mailbox.tail })
  | _ => True

instance (link : Link σ) (h : List LinkObs) : ∀ label, Decidable (Followed link h label)
  | .handle _ _ => inferInstanceAs (Decidable (_ → _ ∧ (_ ∨ _)))
  | .arrive _ _ | .hangUp _ _ | .room _ | .poll => isTrue trivial

omit [ByteStream σ] in
/-- The packets whose sends go out: all of them, or none when the peer has no address. -/
theorem deliver_socket (answers writeAll : Bool) (more : List Packet) :
    (Connection.deliver (link.socket host answers writeAll) 0 more).1.filter Call.sends =
      (if answers = true then shipped host more else []) ∧
    ((Connection.deliver (link.socket host answers writeAll) 0 more).2 = true →
      answers = true ∨ more = []) := by
  cases answers with
  | true =>
      rw [@Connection.deliver_answered α _ host (link.socket host true writeAll) fun _ => rfl]
      exact ⟨rfl, fun _ => .inl rfl⟩
  | false =>
      cases more with
      | nil => exact ⟨rfl, fun _ => .inr rfl⟩
      | cons => exact ⟨rfl, nofun⟩

/-- What the loop over the buffer takes out after a read: packets, and a header that it reads for
nothing. -/
structure Round where
  packets : List Packet
  lost : List UInt8

def Round.bytes (round : Round) : List UInt8 := bytesOf round.packets ++ round.lost

section Lawful

variable [LawfulByteStream σ]

/-- What was read from the socket is in the buffer, behind what the loop has taken out, once for
each message, and the packets were sent on. -/
def Buffered (host : α) (h : List LinkObs) (conn : Connection σ) : Prop :=
  ∃ rounds : List Round, rounds.length = h.countP LinkObs.handles ∧
    (∀ round ∈ rounds, round.lost = [] ∨ round.lost.length = Packet.min) ∧
    h.flatMap LinkObs.takes = rounds.flatMap Round.bytes ++ (view conn.recvBuf).ahead ∧
    sentOn h = shipped host (rounds.flatMap Round.packets)

theorem Buffered.arrived {conn : Connection σ} (buffered : Buffered host h conn)
    (bytes : List UInt8) : Buffered host (h ++ [.arrived bytes]) conn := by
  obtain ⟨rounds, handled, headers, taken, sent⟩ := buffered
  refine ⟨rounds, ?_, headers, ?_, ?_⟩
  · simpa [LinkObs.handles] using handled
  · simpa [LinkObs.takes] using taken
  · simpa [sentOn, LinkObs.calls] using sent

/-- A read goes to the buffer, and what the loop takes out of it is sent on. -/
theorem Buffered.receive [BoundedByteStream σ] {conn next : Connection σ}
    (buffered : Buffered host h conn) (same : link.connection = some conn)
    (alive : conn.keepAlive = true) (before : conn.isOpen = true) {ready : Ready}
    {answers writeAll : Bool}
    (reads : ready.isReadable = true → link.unread ≠ [] ∧ link.fits = true)
    (result : (conn.receive me (link.socket host answers writeAll) ready.work).2 = some next)
    (opened : next.isOpen = true) :
    Buffered host (h ++ .took (link.taking ready.isReadable) ::
      (conn.receive me (link.socket host answers writeAll) ready.work).1.map .called) next := by
  have goes := @Connection.receive_goes_on σ α _ _ me conn (link.socket host answers writeAll)
    ready _ before fun readable => read_taking readable (reads readable).1
  rw [goes] at result ⊢
  obtain ⟨packets, drained, answered, calls⟩ :=
    Connection.process_open (by exact alive) result opened
  obtain ⟨lost, split, header⟩ := drain_spec drained
  obtain ⟨sends, delivered⟩ := @deliver_socket σ α _ host link answers writeAll packets
  obtain ⟨rounds, handled, headers, taken, sent⟩ := buffered
  refine ⟨rounds ++ [⟨packets, lost⟩], ?_, ?_, ?_, ?_⟩
  · rw [List.length_append, List.countP_append, LinkObs.handles_handled, handled,
      List.length_singleton]
  · intro round mem
    obtain old | new := List.mem_append.mp mem
    · exact headers round old
    · obtain rfl := List.mem_singleton.mp new
      exact (header rfl).symm.imp_left fun none => none.1
  · replace split : (view (conn.filled ready.isReadable (link.taking ready.isReadable))).ahead =
      bytesOf packets ++ lost ++ (view next.recvBuf).ahead := split
    rw [view_filled same fun readable => (reads readable).2] at split
    rw [List.flatMap_append, LinkObs.takes_handled, taken, List.append_assoc, List.flatMap_append,
      List.flatMap_singleton, List.append_assoc]
    exact congrArg _ split
  · rw [sentOn_append, sentOn_handled, calls, sends, sent, List.flatMap_append, shipped_append,
      List.flatMap_singleton]
    obtain answers | rfl := delivered answered
    · rw [if_pos answers]
    · split <;> rfl

/-- As long as the connection is open, unread bytes are asked for, and what was read is in its
buffer or behind it. -/
structure Awake (host : α) (link : Link σ) (h : List LinkObs) : Prop where
  arrived : link.peer ≠ .reset →
    h.flatMap LinkObs.takes ++ link.unread = h.flatMap LinkObs.arrives
  reset : link.peer = .reset → link.unread = []
  kept : ∀ conn, link.connection = some conn → conn.keepAlive = true
  asked : ∀ conn, link.connection = some conn → conn.isOpen = true →
    link.Asked ∨ link.unread = [] ∧ link.peer ≠ .reset
  buffered : ∀ conn, link.connection = some conn → conn.isOpen = true → Buffered host h conn

theorem awake_accepted :
    Awake host (accepted recvBufferSize sendBufferSize : Link σ) [] where
  arrived _ := rfl
  reset := nofun
  kept := by
    intro conn same
    cases same
    rfl
  asked _ _ _ := .inr ⟨rfl, nofun⟩
  buffered := by
    intro conn same _
    cases same
    exact ⟨[], rfl, nofun, by simp [Connection.accepted, view_withCapacity], rfl⟩

variable [BoundedByteStream σ]

theorem Awake.handle {answers writeAll : Bool} (awake : Awake host link h)
    (followed : Followed link h (.handle answers writeAll))
    (taken : Link.step me host link (.handle answers writeAll) = some (t, seen)) :
    Awake host t (h ++ seen) := by
  obtain ⟨ready, rest, conn, waiting, same, peer, split, pending, mailbox, connection, rfl⟩ :=
    step_handle taken
  have kept := awake.kept conn same
  have announces (readable : ready.isReadable = true) : link.announced = true := by
    simpa [announced, waiting] using readable
  refine ⟨?_, ?_, ?_, ?_, ?_⟩
  · intro there
    rw [peer] at there
    rw [List.flatMap_append, List.flatMap_append, LinkObs.takes_handled, LinkObs.arrives_handled,
      List.append_assoc, split, List.append_nil, awake.arrived there]
  · intro gone
    rw [awake.reset (peer ▸ gone)] at split
    exact (List.append_eq_nil_iff.mp split).2
  · intro next open_next
    exact (Connection.receive_kept kept (connection ▸ open_next)).1
  · intro next open_next opened
    obtain ⟨before, reads⟩ :=
      (Connection.receive_kept kept (connection ▸ open_next)).2 opened
    cases readable : ready.isReadable with
    | true =>
        obtain ⟨bytes, answer, more⟩ := reads readable
        have unread := unread_of_read answer more
        obtain short | later := (followed (announces readable)).2
        · refine .inr ⟨?_, fun gone => unread (awake.reset (peer ▸ gone))⟩
          simpa [taking, readable, List.take_of_length_le short] using split
        · left
          simpa [Asked, pending, mailbox, waiting] using later
    | false =>
        obtain ⟨event, mem, asks⟩ | ⟨nothing, there⟩ := awake.asked conn same before
        · refine .inl ⟨event, ?_, asks⟩
          rw [waiting] at mem
          rw [pending, mailbox]
          have other : event ≠ ready := by
            rintro rfl
            exact absurd asks (by simp [readable])
          simpa [other] using mem
        · rw [nothing] at split
          exact .inr ⟨(List.append_eq_nil_iff.mp split).2, peer ▸ there⟩
  · intro next open_next opened
    have result := connection ▸ open_next
    obtain ⟨before, reads⟩ := (Connection.receive_kept kept result).2 opened
    apply (awake.buffered conn same before).receive same kept before _ result opened
    intro readable
    obtain ⟨bytes, answer, more⟩ := reads readable
    exact ⟨unread_of_read answer more, (followed (announces readable)).1⟩

theorem Awake.step {label : LinkLabel} (awake : Awake host link h)
    (followed : Followed link h label)
    (taken : Link.step me host link label = some (t, seen)) : Awake host t (h ++ seen) := by
  cases step_cases taken with
  | arrive _ alive =>
      refine ⟨?_, ?_, awake.kept, ?_, ?_⟩
      · intro there
        simp [LinkObs.takes, LinkObs.arrives, ← awake.arrived there]
      · intro gone
        have same := alive.symm.trans gone
        cases same
      · intro conn same opened
        exact .inl (asked_of_raise (.inl rfl))
      · intro conn same opened
        exact (awake.buffered conn same opened).arrived _
  | @hangUp reset _ alive =>
      rw [List.append_nil]
      refine ⟨?_, ?_, awake.kept, ?_, awake.buffered⟩
      · intro there
        cases reset with
        | true => exact absurd rfl there
        | false => exact awake.arrived (by simp [alive])
      · intro gone
        cases reset with
        | true => rfl
        | false => cases gone
      · intro conn same opened
        exact .inl (asked_of_raise (.inl rfl))
  | room =>
      rw [List.append_nil]
      refine ⟨awake.arrived, awake.reset, awake.kept, ?_, awake.buffered⟩
      intro conn same opened
      exact (awake.asked conn same opened).imp_left fun asked => asked_of_raise (.inr asked)
  | poll waiting =>
      rw [List.append_nil]
      refine ⟨awake.arrived, awake.reset, awake.kept, ?_, awake.buffered⟩
      intro conn same opened
      apply (awake.asked conn same opened).imp_left
      rintro ⟨event, mem, announces⟩
      refine ⟨event, ?_, announces⟩
      rw [waiting] at mem
      simp only [List.mem_append, List.mem_cons, List.not_mem_nil, or_false] at mem ⊢
      tauto
  | handle => exact awake.handle followed taken

/-- **No byte is left behind.** In every run in which the buffer has room for each read, and a read
that does not take all the bytes is not the last one that was asked for: when an open connection
has nothing to wait for, it has read everything that arrived, and these bytes are in its buffer,
behind those of the packets that it has sent on and of the headers that the parser has lost. -/
theorem all_read (run : (machine me host recvBufferSize sendBufferSize).Run Followed link h)
    {conn : Connection σ} (same : link.connection = some conn) (opened : conn.isOpen = true)
    (polled : link.pending = []) (handled : link.mailbox = []) :
    link.unread = [] ∧ h.flatMap LinkObs.takes = h.flatMap LinkObs.arrives ∧
      Buffered host h conn := by
  have awake : Awake host link h := by
    clear opened polled handled same
    induction run with
    | start => exact awake_accepted
    | @step s t h label seen before followed taken ih => exact ih.step followed taken
  obtain ⟨ready, mem, _⟩ | ⟨nothing, there⟩ := awake.asked conn same opened
  · rw [polled, handled] at mem
    cases mem
  · have whole := awake.arrived there
    rw [nothing, List.append_nil] at whole
    exact ⟨nothing, whole, awake.buffered conn same opened⟩

end Lawful

theorem all_read_punctual :
    ∃ (link : Link Buffer) (h : List LinkObs) (conn : Connection Buffer),
      (machine "server#1" (⟨80⟩ : Loopback) 64 64).Run Followed link h ∧
        h.flatMap LinkObs.arrives = bytesOf letters ∧ link.connection = some conn ∧
        link.unread = [] ∧ h.flatMap LinkObs.takes = h.flatMap LinkObs.arrives ∧
        Buffered (⟨80⟩ : Loopback) h conn := by
  have run := Machine.run_replay (machine (σ := Buffer) "server#1" (⟨80⟩ : Loopback) 64 64)
    Followed punctual (by decide)
  exact ⟨_, _, _, run, by decide, rfl, all_read run rfl (by decide) (by decide) (by decide)⟩

/-- A last read that does not take all the bytes leaves some that nobody asks for. -/
theorem handle_strands {answers writeAll : Bool}
    (taken : Link.step me host link (.handle answers writeAll) = some (t, seen))
    (announces : link.announced = true) (many : 1024 < link.unread.length)
    (unasked : ¬ Asked { link with mailbox := link.mailbox.tail }) :
    t.unread ≠ [] ∧ ¬ t.Asked := by
  obtain ⟨ready, rest, conn, waiting, _, _, split, pending, mailbox, _, _⟩ := step_handle taken
  have readable : ready.isReadable = true := by simpa [announced, waiting] using announces
  constructor
  · intro nothing
    rw [nothing, taking, if_pos readable, List.append_nil] at split
    have size := congrArg List.length split
    rw [List.length_take] at size
    omega
  · simpa [Asked, pending, mailbox, waiting] using unasked

/-- A packet that takes more than one read. -/
def parcel : Packet := ⟨"a", "b", List.replicate 1100 0, 9⟩

/-- It arrives at once, and is announced once. -/
def burst : List LinkLabel := [.arrive parcel.toBytes false, .poll, .handle true true]

/-- The connection has read 1024 bytes and waits for the others, which wait for it. -/
theorem bytes_stranded :
    ∃ (link : Link Buffer) (h : List LinkObs),
      (machine "server#1" (⟨80⟩ : Loopback) 1024 1024).Reached link h ∧ link.peer = .alive ∧
        (link.connection.any fun conn => conn.isOpen &&
          decide (asRef conn.recvBuf = parcel.toBytes.take 1024)) = true ∧
        link.pending = [] ∧ link.mailbox = [] ∧ h.flatMap LinkObs.arrives = parcel.toBytes ∧
        h.flatMap LinkObs.takes = parcel.toBytes.take 1024 ∧
        link.unread = parcel.toBytes.drop 1024 ∧ link.unread ≠ [] := by
  have run := Machine.run_replay (machine (σ := Buffer) "server#1" (⟨80⟩ : Loopback) 1024 1024)
    (fun _ _ _ => True) burst (by decide +kernel)
  exact ⟨_, _, run, by decide +kernel, by decide +kernel, by decide +kernel, by decide +kernel,
    by decide +kernel, by decide +kernel, by decide +kernel, by decide +kernel⟩

end Link

end Uppercut
