import Uppercut.Remote.Tables

/-!
# What the client notices of a broken connection

`recv` and `send` close a connection when the socket fails, and `poll` looks at what the event
reports as closed. The last assignment to `is_open` counts. So a failure is noticed when the
direction that is handled last is reported as closed, and otherwise it is forgotten.
-/

namespace Uppercut

open ByteStream SocketAddr

namespace Client

variable {σ : Type} [ByteStream σ]

namespace Connection

/-- The loop of `recv` comes to the end of the stream or to an error before its room is used
up. -/
def recvFails : List (Option (List UInt8)) → Connection σ → Bool
  | [], _ => false
  | answer :: answers, conn =>
      if 1024 ≤ cap conn.recvBuf then
        match answer with
        | some [] | none => true
        | some bytes =>
            recvFails answers { conn with recvBuf := (ByteStream.put conn.recvBuf bytes).2 }
      else false

/-- `write_all` stops before the end of the buffer. -/
def sendFails (failsAfter : Option Nat) (conn : Connection σ) : Bool :=
  failsAfter.any fun k => k < (asRef conn.sendBuf).length

/-- Reading fails, or the event reports its end. -/
def readFails (event : ClientEvent) (conn : Connection σ) : Bool :=
  event.isReadable && (conn.recvFails event.reads || event.isReadClosed)

/-- Writing fails, or the event reports its end. -/
def writeFails (event : ClientEvent) (conn : Connection σ) : Bool :=
  event.isWritable && (conn.sendFails event.failsAfter || event.isWriteClosed)

/-- A failure is seen in the direction that is handled last and is reported as closed, or
there is none. -/
def Notices (event : ClientEvent) (conn : Connection σ) : Prop :=
  if event.isWritable then
    event.isWriteClosed = true ∨
      conn.readFails event = false ∧ conn.sendFails event.failsAfter = false
  else
    event.isReadable = true → event.isReadClosed = true ∨ conn.recvFails event.reads = false

/-- A connection that was open is closed by `recv` exactly when reading fails. -/
theorem recv_isOpen (answers : List (Option (List UInt8))) (conn : Connection σ) :
    (conn.recv answers).2.isOpen = (conn.isOpen && !conn.recvFails answers) := by
  induction answers generalizing conn with
  | nil => exact (Bool.and_true conn.isOpen).symm
  | cons answer answers ih =>
      unfold recv recvFails
      split
      case isTrue =>
        cases answer with
        | none => exact (Bool.and_false _).symm
        | some bytes =>
            cases bytes with
            | nil => exact (Bool.and_false _).symm
            | cons => exact ih _
      case isFalse => exact (Bool.and_true _).symm

/-- A connection that was open is closed by `send` exactly when writing fails. -/
theorem send_isOpen (failsAfter : Option Nat) (conn : Connection σ) :
    (conn.send failsAfter).2.isOpen = (conn.isOpen && !conn.sendFails failsAfter) := by
  unfold send sendFails
  cases failsAfter with
  | none => exact (Bool.and_true _).symm
  | some k =>
      by_cases short : k < (asRef conn.sendBuf).length
      · simp [short]
      · simp [short]

/-- A failure is followed by closing the connection exactly when it is noticed. -/
theorem notices_iff (event : ClientEvent) (conn : Connection σ) :
    (conn.readFails event = true ∨ conn.writeFails event = true → event.keepsOpen = false) ↔
      conn.Notices event := by
  unfold Notices writeFails readFails ClientEvent.keepsOpen
  cases event.isWritable <;> cases event.isReadable <;> cases event.isWriteClosed <;>
    cases event.isReadClosed <;> cases conn.recvFails event.reads <;>
    cases conn.sendFails event.failsAfter <;> simp

end Connection

variable {client next : Client σ} {event : ClientEvent} {events : List ClientEvent}
variable {traffic : List Traffic}

theorem Tables.serve_connections (tables : client.Tables)
    (reported : event.token ∈ client.registry) (served : client.serve event = (traffic, some next))
    (id : Nat) :
    (next.connections id).map Connection.target =
      if event.token = id ∧ event.keepsOpen = false then none
      else (client.connections id).map Connection.target := by
  obtain ⟨conn, known⟩ := Option.isSome_iff_exists.mp ((tables.registered _).mp reported)
  have target := conn.serve_target event
  have opened := Connection.serve_isOpen (tables.opened _ _ known) event
  simp only [Client.serve, known, opened] at served
  split at served
  case isTrue stays =>
    split at served
    case isTrue =>
      cases served
      dsimp only
      rw [if_neg (by simp [stays]), Table.insert_apply, Table.remove_apply]
      split
      case isTrue own =>
        subst own
        rw [known]
        exact congrArg some target
      case isFalse => rfl
    case isFalse => cases served
  case isFalse closes =>
    cases served
    rw [Bool.not_eq_true] at closes
    dsimp only
    rw [Table.remove_apply]
    by_cases own : id = event.token
    · rw [if_pos own, if_pos ⟨own.symm, closes⟩]
      rfl
    · rw [if_neg own, if_neg fun both => own both.1.symm]

/-- A round removes the connections that an event does not keep open, and no others. -/
theorem Tables.poll_connections (tables : client.Tables) (reports : client.Reports events)
    (polled : client.poll events = (traffic, some next)) (id : Nat) :
    (next.connections id).map Connection.target =
      if ∃ event ∈ events, event.token = id ∧ event.keepsOpen = false then none
      else (client.connections id).map Connection.target := by
  induction events generalizing client traffic with
  | nil =>
      cases polled
      simp
  | cons event events ih =>
      obtain ⟨first, after, more, served, rest⟩ := poll_cons polled
      have reported := reports.2 event List.mem_cons_self
      obtain ⟨kept, stay⟩ := (tables.serve reported).2 first served
      rw [ih kept (reports.rest stay) rest, tables.serve_connections reported served]
      simp only [List.exists_mem_cons_iff]
      by_cases own : event.token = id ∧ event.keepsOpen = false
      · simp [own]
      · simp [own]

/-- After a round a reported connection is gone exactly when its event does not keep it open. -/
theorem Tables.poll_closes (tables : client.Tables) (reports : client.Reports events)
    (polled : client.poll events = (traffic, some next)) (mem : event ∈ events) :
    next.connections event.token = none ↔ event.keepsOpen = false := by
  have known := (tables.registered _).mp (reports.2 event mem)
  have after := tables.poll_connections reports polled event.token
  constructor
  · intro gone
    rw [gone, Option.map_none] at after
    split at after
    case isTrue closes =>
      obtain ⟨other, mem', same, closed⟩ := closes
      rwa [List.inj_on_of_nodup_map reports.1 mem' mem same] at closed
    case isFalse =>
      rw [Option.map_eq_none_iff.mp after.symm] at known
      cases known
  · intro closed
    rw [if_pos ⟨event, mem, rfl, closed⟩] at after
    exact Option.map_eq_none_iff.mp after

/-- Nothing leads to a connection that is gone, and its host is not known any more. -/
theorem Tables.poll_forgets (tables : client.Tables) (reports : client.Reports events)
    (polled : client.poll events = (traffic, some next)) {conn : Connection σ}
    (known : client.connections event.token = some conn)
    (gone : next.connections event.token = none) :
    (∀ addr, next.destinations addr ≠ some event.token) ∧ next.has conn.target = false := by
  have kept := (tables.poll reports).2 traffic polled
  have unfiled : ∀ addr, next.destinations addr ≠ some event.token := by
    intro addr found
    obtain ⟨other, here, _⟩ := (kept.inverse addr event.token).mp found
    rw [gone] at here
    cases here
  refine ⟨unfiled, ?_⟩
  rw [has, Option.isSome_eq_false_iff, Option.isNone_iff_eq_none, Option.eq_none_iff_forall_ne_some]
  intro id found
  obtain ⟨other, here, target⟩ := (kept.inverse conn.target id).mp found
  -- The host had an entry before, and that was the one of the connection.
  have after := tables.poll_connections reports polled id
  rw [here, Option.map_some, target] at after
  split at after
  case isTrue => cases after
  case isFalse =>
    obtain ⟨before, there, target'⟩ := Option.map_eq_some_iff.mp after.symm
    have filed := (tables.inverse conn.target id).mpr ⟨before, there, target'⟩
    rw [(tables.inverse conn.target event.token).mpr ⟨conn, known, rfl⟩] at filed
    rw [Option.some.inj filed] at unfiled
    exact unfiled conn.target found

section Detection

variable {α : Type} [SocketAddr α] {responsePort : UInt16} {recvBufferSize sendBufferSize : Nat}
variable {h : List Traffic}

/-- **Failures are noticed.** After a round of `poll`, a connection on which reading or writing
has failed is in neither map, and its host is not known, exactly under the condition. -/
theorem failures_noticed
    (run : (machine α responsePort recvBufferSize sendBufferSize).Run Polls (some client) h)
    (reports : client.Reports events) (polled : client.poll events = (traffic, some next))
    (mem : event ∈ events) :
    ∃ conn, client.connections event.token = some conn ∧
      ((conn.readFails event = true ∨ conn.writeFails event = true →
          next.connections event.token = none ∧
            (∀ addr, next.destinations addr ≠ some event.token) ∧
            next.has conn.target = false) ↔
        conn.Notices event) := by
  have tables := machine_tables run client rfl
  obtain ⟨conn, known⟩ :=
    Option.isSome_iff_exists.mp ((tables.registered _).mp (reports.2 event mem))
  refine ⟨conn, known, ?_⟩
  rw [← Connection.notices_iff, ← tables.poll_closes reports polled mem]
  constructor
  · intro noticed fails
    exact (noticed fails).1
  · intro noticed fails
    exact ⟨noticed fails, tables.poll_forgets reports polled known (noticed fails)⟩

end Detection

/-- A client that has written to one host. -/
def acquainted : Client Buffer :=
  (((machine Loopback 9 2048 64).replay Polls
    [sending "a@127.0.0.1:80" [1, 2], polling [writes 1]]).get (by decide)).1.get (by decide)

theorem acquainted_reached :
    ∃ h, (machine (σ := Buffer) Loopback 9 2048 64).Run Polls (some acquainted) h := by
  have run := Machine.run_replay (machine (σ := Buffer) Loopback 9 2048 64) Polls
    [sending "a@127.0.0.1:80" [1, 2], polling [writes 1]] (by decide)
  rw [acquainted, Option.some_get]
  exact ⟨_, run⟩

/-- The peer has closed its side: reading ends, and the socket still takes bytes. -/
def hangsUp (token : Nat) : ClientEvent := ⟨token, true, true, true, false, [some []], none, true⟩

theorem failures_noticed_hangsUp :
    ∃ (next : Client Buffer) (conn : Connection Buffer),
      acquainted.connections 1 = some conn ∧
      (acquainted.poll [{ hangsUp 1 with isWriteClosed := true }]).2 = some next ∧
      conn.readFails { hangsUp 1 with isWriteClosed := true } = true ∧
      next.has conn.target = false := by
  obtain ⟨h, run⟩ := acquainted_reached
  obtain ⟨next, polled⟩ := Option.isSome_iff_exists.mp
    (show (acquainted.poll [{ hangsUp 1 with isWriteClosed := true }]).2.isSome = true by decide)
  obtain ⟨conn, known, noticed⟩ :=
    failures_noticed run (by decide) (Prod.ext rfl polled) List.mem_cons_self
  have fails : (acquainted.connections 1).map
      (·.readFails { hangsUp 1 with isWriteClosed := true }) = some true := by decide
  rw [show acquainted.connections 1 = some conn from known] at fails
  have failed : conn.readFails { hangsUp 1 with isWriteClosed := true } = true :=
    Option.some.inj fails
  exact ⟨next, conn, known, polled, failed, (noticed.mpr (.inl rfl) (.inl failed)).2.2⟩

/-- The connection stays, and the host is still known. -/
theorem failure_forgotten :
    ∃ (next : Client Buffer) (conn : Connection Buffer) (h : List Traffic),
      (machine Loopback 9 2048 64).Run Polls (some acquainted) h ∧
      acquainted.Reports [hangsUp 1] ∧ acquainted.connections 1 = some conn ∧
      (acquainted.poll [hangsUp 1]).2 = some next ∧ conn.readFails (hangsUp 1) = true ∧
      (next.connections 1).isSome = true ∧ next.has conn.target = true := by
  obtain ⟨h, run⟩ := acquainted_reached
  have checked : (acquainted.connections 1).any (fun conn =>
      conn.readFails (hangsUp 1) && (acquainted.poll [hangsUp 1]).2.any fun next =>
        (next.connections 1).isSome && next.has conn.target) = true := by decide
  simp only [Option.any_eq_true, Bool.and_eq_true] at checked
  obtain ⟨conn, known, failed, next, polled, kept, filed⟩ := checked
  exact ⟨next, conn, h, run, by decide, known, polled, failed, kept, filed⟩

end Client
end Uppercut
