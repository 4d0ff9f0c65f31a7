import Uppercut.Machine.History
import Uppercut.Machine.Run
import Uppercut.Remote.Server

/-!
# A connection that has failed

A connection of the server is kept alive, so nothing opens it again: once reading or parsing has
failed, each later `Work` only asks for the stop again, and the buffer is not looked at any more.
-/

namespace Uppercut

open ByteStream SocketAddr

namespace Connection

/-- What an error of the parser is logged as. -/
def failedLog : Call := .log "Packet parser marked connection buffer as failed"

/-- A call of `receive`: the envelope, what a read returns then, and what is called. -/
structure Handling where
  envelope : Envelope
  read : Option (List UInt8)
  calls : List Call
  deriving DecidableEq

namespace Handling

def isWork (x : Handling) : Bool :=
  match x.envelope.message with
  | .work _ _ => true
  | _ => false

/-- A read has returned the end of the stream or an error. -/
def ReadFails (x : Handling) : Prop :=
  (∃ isWritable, x.envelope.message = .work true isWritable) ∧ (x.read = none ∨ x.read = some [])

/-- A read or the parser has failed. -/
def Poisons (x : Handling) : Prop := x.ReadFails ∨ failedLog ∈ x.calls

end Handling

variable {σ α : Type} [ByteStream σ] [SocketAddr α]

/-- A connection from its spawn on. After a panic it is gone. -/
def machine (α : Type) [SocketAddr α] (me : Tag) (recvBufferSize sendBufferSize : Nat) :
    Machine (Option (Connection σ)) (Envelope × Socket α) Handling where
  start := some (accepted recvBufferSize sendBufferSize)
  step conn turn := conn.map fun conn =>
    let (calls, next) := conn.receive me turn.2 turn.1
    (next, [⟨turn.1, turn.2.read, calls⟩])

variable {conn next : Connection σ} {socket : Socket α} {envelope : Envelope} {me : Tag}
variable {calls : List Call}

/-- A log line about a packet is not about the parser. -/
theorem failedLog_notMem_deliver (i : Nat) (packets : List Packet) :
    failedLog ∉ (deliver socket i packets).1 := by
  induction packets generalizing i with
  | nil => exact List.not_mem_nil
  | cons packet packets ih =>
      rw [deliver]
      split
      case h_1 => exact List.not_mem_nil
      case h_2 host _ =>
        apply List.not_mem_append _ (ih (i + 1))
        intro mem
        simp only [delivered, failedLog, List.mem_cons, reduceCtorEq, List.not_mem_nil, or_false,
          Call.log.injEq] at mem
        have first := congrArg (fun text => text.toList.head?) mem
        simp [String.toList_append] at first

/-- If the parser fails, then the last calls are the log line and the stop. -/
theorem process_failed (alive : conn.keepAlive = true)
    (logged : failedLog ∈ (conn.process me socket).1) :
    ∃ front next, conn.process me socket = (front ++ [failedLog, .stop me], some next) ∧
      next.isOpen = false := by
  have silent := @failedLog_notMem_deliver α _ socket 0 (drainAll conn.recvBuf).1
  revert logged
  unfold process
  dsimp only
  split
  case isTrue => exact fun logged => absurd logged silent
  split
  case h_1 | h_2 => exact fun logged => absurd logged silent
  case h_3 =>
    intro _
    obtain ⟨same, opens⟩ := flush_frame socket.writeAll
      ({ conn with recvBuf := (drainAll conn.recvBuf).2.1, isOpen := false } : Connection σ)
    have closed : _ = false := Bool.eq_false_iff.mpr fun still => Bool.false_ne_true (opens still)
    rw [keepOpen_alive (same.trans alive), closed]
    exact ⟨_, _, by rw [List.append_assoc]; rfl, closed⟩
  case h_4 =>
    obtain ⟨same, _⟩ := flush_frame socket.writeAll
      ({ conn with recvBuf := (drainAll conn.recvBuf).2.1 } : Connection σ)
    rw [keepOpen_alive (same.trans alive)]
    intro logged
    obtain mem | mem := List.mem_append.mp logged
    · exact absurd mem silent
    · dsimp only at mem
      split at mem <;> simp [failedLog] at mem

/-- A connection that is closed only asks for the stop. -/
theorem receive_closed (alive : conn.keepAlive = true) (closed : conn.isOpen = false) :
    ∃ next, conn.receive me socket envelope =
        (if Handling.isWork ⟨envelope, socket.read, []⟩ then [.stop me] else [], some next) ∧
      next.isOpen = false ∧ next.keepAlive = true := by
  cases message : envelope.message with
  | work isReadable isWritable =>
      obtain ⟨heard, kept, opens, _, result⟩ :=
        @receive_work σ α _ _ conn socket envelope me alive _ _ message
      have still : heard.isOpen = false :=
        Bool.eq_false_iff.mpr fun opened => Bool.false_ne_true (closed.symm.trans (opens opened))
      rw [still] at result
      refine ⟨heard, ?_, still, kept⟩
      rw [result, Handling.isWork]
      simp [message]
  | bytes | clientLoop | serverLoop | other =>
      refine ⟨conn, ?_, closed, alive⟩
      simp [receive, Handling.isWork, message]

/-- A call keeps the connection alive. One that fails closes it and asks for the stop, and it
sends nothing after the failure. -/
theorem receive_poisons (alive : conn.keepAlive = true) {after : Option (Connection σ)}
    (result : conn.receive me socket envelope = (calls, after)) :
    (∀ next, after = some next → next.keepAlive = true) ∧
      (Handling.ReadFails ⟨envelope, socket.read, calls⟩ → calls = [.stop me] ∧
        ∃ next, after = some next ∧ next.isOpen = false) ∧
      (failedLog ∈ calls → (∃ front, calls = front ++ [failedLog, .stop me]) ∧
        ∃ next, after = some next ∧ next.isOpen = false) := by
  cases message : envelope.message with
  | work isReadable isWritable =>
      obtain ⟨heard, kept, _, fails, same⟩ :=
        @receive_work σ α _ _ conn socket envelope me alive _ _ message
      rw [result] at same
      cases opened : heard.isOpen with
      | false =>
          rw [opened] at same
          cases same
          refine ⟨?_, fun _ => ⟨rfl, heard, rfl, opened⟩, fun mem => ?_⟩
          · intro next here
            cases here
            exact kept
          · cases List.mem_singleton.mp mem
      | true =>
          rw [opened, if_pos rfl] at same
          refine ⟨?_, ?_, ?_⟩
          · rintro next rfl
            exact (process_kept kept (congrArg Prod.snd same).symm).1
          · rintro ⟨⟨_, readable⟩, ended⟩
            obtain ⟨rfl, _⟩ := Message.work.inj (message.symm.trans readable)
            rw [fails rfl ended] at opened
            cases opened
          · intro mem
            have told : calls = (heard.process me socket).1 := congrArg Prod.fst same
            obtain ⟨front, next, failed, closed⟩ := process_failed kept (told ▸ mem)
            cases same.trans failed
            exact ⟨⟨front, rfl⟩, next, rfl, closed⟩
  | bytes | clientLoop | serverLoop | other =>
      simp only [receive, message, Prod.mk.injEq] at result
      obtain ⟨rfl, rfl⟩ := result
      refine ⟨fun next here => Option.some.inj here ▸ alive, ?_, fun mem => absurd mem (by simp)⟩
      rintro ⟨⟨_, readable⟩, _⟩
      cases message.symm.trans readable

section Runs

variable {recvBufferSize sendBufferSize : Nat} {s : Option (Connection σ)} {h : List Handling}

/-- A step of a connection that is there is a call of `receive`. -/
theorem machine_step {t : Option (Connection σ)} {turn : Envelope × Socket α}
    {seen : List Handling}
    (taken : (machine α me recvBufferSize sendBufferSize).step s turn = some (t, seen)) :
    ∃ conn calls, s = some conn ∧ conn.receive me turn.2 turn.1 = (calls, t) ∧
      seen = [⟨turn.1, turn.2.read, calls⟩] := by
  obtain ⟨conn, rfl, same⟩ := Option.map_eq_some_iff.mp taken
  cases same
  exact ⟨conn, _, rfl, rfl, rfl⟩

/-- A connection that has failed is closed and stays there. -/
theorem machine_poisoned (run : (machine α me recvBufferSize sendBufferSize).Reached s h) :
    (∀ conn, s = some conn → conn.keepAlive = true) ∧
      ((∃ x ∈ h, x.Poisons) → ∃ conn, s = some conn ∧ conn.isOpen = false) := by
  induction run with
  | start =>
      refine ⟨fun conn same => Option.some.inj same ▸ rfl, ?_⟩
      rintro ⟨_, mem, _⟩
      cases mem
  | @step s t h turn seen _ _ taken ih =>
      obtain ⟨conn, calls, rfl, result, rfl⟩ := machine_step taken
      obtain ⟨alive, closed⟩ := ih
      obtain ⟨kept, ends, fails⟩ := receive_poisons (alive conn rfl) result
      refine ⟨kept, ?_⟩
      rintro ⟨x, mem, poisons⟩
      obtain old | new := List.mem_append.mp mem
      · obtain ⟨_, same, still⟩ := closed ⟨x, old, poisons⟩
        cases same
        obtain ⟨next, silent, shut, _⟩ :=
          @receive_closed σ α _ _ conn turn.2 turn.1 me (alive conn rfl) still
        rw [result] at silent
        cases silent
        exact ⟨next, rfl, shut⟩
      · obtain rfl := List.mem_singleton.mp new
        obtain readFails | logged := poisons
        · exact (ends readFails).2
        · exact (fails logged).2

/-- **A poisoned connection delivers nothing more.** The failing call itself sends nothing after
the failure, and every later one only asks for the stop, if it handles a `Work`. -/
theorem poisoned_silent (run : (machine α me recvBufferSize sendBufferSize).Reached s h) :
    (∀ x ∈ h, (x.ReadFails → x.calls = [.stop me]) ∧
      (failedLog ∈ x.calls → ∃ front, x.calls = front ++ [failedLog, .stop me])) ∧
    History.Always (fun before x => (∃ y ∈ before, y.Poisons) →
      x.calls = if x.isWork then [.stop me] else []) h := by
  induction run with
  | start => exact ⟨fun _ mem => absurd mem List.not_mem_nil, History.always_nil⟩
  | @step s t h turn seen before _ taken ih =>
      obtain ⟨conn, calls, rfl, result, rfl⟩ := machine_step taken
      obtain ⟨alive, closed⟩ := machine_poisoned before
      obtain ⟨_, ends, fails⟩ := receive_poisons (alive conn rfl) result
      constructor
      · intro x mem
        obtain old | new := List.mem_append.mp mem
        · exact ih.1 x old
        · obtain rfl := List.mem_singleton.mp new
          exact ⟨fun readFails => (ends readFails).1, fun logged => (fails logged).1⟩
      · rw [History.always_append, History.alwaysFrom_cons]
        refine ⟨ih.2, ?_, History.alwaysFrom_nil _⟩
        intro poisoned
        obtain ⟨_, same, still⟩ := closed poisoned
        cases same
        obtain ⟨next, silent, _⟩ :=
          @receive_closed σ α _ _ conn turn.2 turn.1 me (alive conn rfl) still
        rw [result] at silent
        exact congrArg Prod.fst silent

end Runs

/-- A `Work` with the bytes that are read then. -/
def hears (bytes : List UInt8) : Envelope × Socket Loopback :=
  (.of (.work true false), ⟨some bytes, fun _ => some ⟨80⟩, true⟩)

/-- A packet comes in, then a header with a length beyond the limit, then another packet. -/
def desynchronised : List (Envelope × Socket Loopback) :=
  [hears Packet.hello.toBytes, hears (List.replicate 15 255), hears Packet.hello.toBytes]

theorem poisoned_silent_desynchronised :
    ∃ (s : Option (Connection Buffer)) (h : List Handling),
      (machine Loopback "c" 64 64).Reached s h ∧
      (h.map fun x => x.calls.length) = [2, 2, 1] ∧
      History.Always (fun before x => (∃ y ∈ before, y.Poisons) →
        x.calls = if x.isWork then [.stop "c"] else []) h := by
  have run := Machine.run_replay (machine (σ := Buffer) Loopback "c" 64 64) (fun _ _ _ => True)
    desynchronised (by decide)
  exact ⟨_, _, run, by decide, (poisoned_silent run).2⟩

end Connection
end Uppercut
