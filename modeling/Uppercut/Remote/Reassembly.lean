import Uppercut.Remote.Server

/-!
# Reassembly of packets

Packets arrive in reads of any length. The loop over the buffer gives them back when each
read ends near the end of a packet: what follows the last complete packet is no longer than
a header. When more than a header is there, the parser reads the header, finds the packet
incomplete, and has lost the header for the next read.
-/

namespace Uppercut

open ByteStream LawfulByteStream

/-- The packets as they are sent. -/
def bytesOf (packets : List Packet) : List UInt8 := packets.flatMap Packet.toBytes

@[simp] theorem bytesOf_nil : bytesOf [] = [] := rfl

@[simp] theorem bytesOf_cons (packet : Packet) (packets : List Packet) :
    bytesOf (packet :: packets) = packet.toBytes ++ bytesOf packets := rfl

@[simp] theorem bytesOf_append (packets more : List Packet) :
    bytesOf (packets ++ more) = bytesOf packets ++ bytesOf more := List.flatMap_append

/-- A packet that the server takes. -/
def Packet.Fits (packet : Packet) : Prop :=
  15 ≤ packet.toBytes.length ∧ packet.toBytes.length ≤ packetSizeLimit

instance (packet : Packet) : Decidable packet.Fits := inferInstanceAs (Decidable (_ ∧ _))

theorem eq_nil_of_bytesOf {packets : List Packet} (fit : ∀ packet ∈ packets, packet.Fits)
    (short : (bytesOf packets).length ≤ 14) : packets = [] := by
  cases packets with
  | nil => rfl
  | cons packet packets =>
      have size := (fit packet List.mem_cons_self).1
      rw [bytesOf_cons, List.length_append] at short
      omega

variable {σ : Type} [ByteStream σ]

section Drain

variable [LawfulByteStream σ]

/-- When at most a header follows the packets in the buffer, so it does afterwards. A packet that
is nothing but a header waits for more bytes. -/
theorem drain_near {packets : List Packet} {rest : List UInt8} {s : σ} {turns : Nat}
    (small : ∀ packet ∈ packets, packet.toBytes.length ≤ packetSizeLimit)
    (short : rest.length ≤ 14) (holds : view s = ⟨[], bytesOf packets ++ rest⟩)
    (enough : packets.length < turns) :
    ∃ first t left, drain turns s = (first, t, .waits) ∧ view t = ⟨[], left⟩ ∧
      first <+: packets ∧ bytesOf packets ++ rest = bytesOf first ++ left ∧ left.length ≤ 14 := by
  induction packets generalizing s turns with
  | nil =>
      obtain ⟨turns, rfl⟩ := Nat.exists_eq_succ_of_ne_zero (Nat.ne_of_gt enough)
      have few : len s ≤ Packet.min := by simpa [len_eq, holds, Packet.min] using short
      exact ⟨[], s, rest, by simp [drain, Packet.fromBytes_short few], holds, List.nil_prefix, rfl,
        short⟩
  | cons packet packets ih =>
      obtain ⟨turns, rfl⟩ := Nat.exists_eq_succ_of_ne_zero (Nat.ne_of_gt (Nat.zero_lt_of_lt enough))
      by_cases few : len s ≤ Packet.min
      · have left : (bytesOf (packet :: packets) ++ rest).length ≤ 14 := by
          simpa [len_eq, holds, Packet.min] using few
        exact ⟨[], s, _, by simp [drain, Packet.fromBytes_short few], holds, List.nil_prefix, rfl,
          left⟩
      have more : Packet.min < (packet.toBytes ++ (bytesOf packets ++ rest)).length := by
        rw [← List.append_assoc, ← bytesOf_cons]
        simpa [len_eq, holds] using few
      rw [bytesOf_cons, List.append_assoc] at holds
      obtain ⟨next, parsed, moved⟩ := Packet.fromBytes_toBytes (by decide) holds more
        (small packet List.mem_cons_self)
      obtain ⟨first, t, left, drained, kept, within, split, near⟩ :=
        ih (fun p mem => small p (List.mem_cons_of_mem _ mem)) moved (by simpa using enough)
      refine ⟨packet :: first, t, left, by simp [drain, parsed, drained], kept,
        List.cons_prefix_cons.mpr ⟨rfl, within⟩, ?_, near⟩
      rw [bytesOf_cons, bytesOf_cons, List.append_assoc, List.append_assoc, split]

/-- The loop loses no bytes, unless it reads a header for nothing. -/
theorem drain_spec {turns : Nat} {s t : σ} {packets : List Packet} {drained : Drained}
    (result : drain turns s = (packets, t, drained)) :
    ∃ lost, (view s).ahead = bytesOf packets ++ lost ++ (view t).ahead ∧
      (drained = .waits → lost.length = Packet.min ∨ lost = [] ∧ len t ≤ Packet.min ∧
        ((view s).passed = [] → (view t).passed = [])) := by
  induction turns generalizing s t packets drained with
  | zero =>
      cases result
      exact ⟨[], rfl, nofun⟩
  | succ turns ih =>
      rw [drain] at result
      cases parsed : Packet.fromBytes s packetSizeLimit with
      | none =>
          rw [parsed] at result
          cases result
          exact ⟨[], rfl, nofun⟩
      | some parse =>
          obtain ⟨answer, next⟩ := parse
          obtain ⟨short, rfl, rfl⟩ | ⟨enough, moved, none⟩ | ⟨packet, rest, rfl, left, ahead, _⟩ :=
            Packet.fromBytes_cases parsed
          · rw [parsed] at result
            cases result
            exact ⟨[], rfl, fun _ => .inr ⟨rfl, short, id⟩⟩
          · -- The header is lost.
            have lost : (view s).ahead = (view s).ahead.take Packet.min ++ (view next).ahead := by
              rw [moved, Cursor.advance_ahead, List.take_append_drop]
            obtain rfl | rfl := none <;>
            · rw [parsed] at result
              cases result
              exact ⟨_, lost, fun _ => .inl (List.length_take_of_le enough)⟩
          · rw [parsed] at result
            cases result
            obtain ⟨lost, split, near⟩ := ih (rfl : drain turns next = (_, _, _))
            rw [left] at split near
            refine ⟨lost, ?_, fun waits => (near waits).imp_right fun far => ⟨far.1, far.2.1, ?_⟩⟩
            · rw [ahead, bytesOf_cons, List.append_assoc, List.append_assoc,
                ← List.append_assoc (bytesOf _)]
              exact congrArg _ split
            · exact fun _ => far.2.2 rfl

/-- The loop ends within its bound. -/
theorem drain_finishes {turns : Nat} {s : σ} (enough : (view s).ahead.length < turns) :
    (drain turns s).2.2 ≠ .unfinished := by
  induction turns generalizing s with
  | zero => exact absurd enough (Nat.not_lt_zero _)
  | succ turns ih =>
      rw [drain]
      cases parsed : Packet.fromBytes s packetSizeLimit with
      | none => nofun
      | some parse =>
          obtain ⟨answer, next⟩ := parse
          obtain ⟨_, rfl, _⟩ | ⟨_, _, rfl | rfl⟩ | ⟨packet, rest, rfl, left, ahead, _⟩ :=
            Packet.fromBytes_cases parsed
          · nofun
          · nofun
          · nofun
          · apply ih
            have size := Packet.length_toBytes packet
            rw [ahead, List.length_append] at enough
            simp only [left, Packet.min] at size ⊢
            omega

theorem drainAll_finishes (s : σ) : (drainAll s).2.2 ≠ .unfinished :=
  drain_finishes (by rw [len_eq]; omega)

theorem length_le_bytesOf (packets : List Packet) : packets.length ≤ (bytesOf packets).length := by
  induction packets with
  | nil => exact Nat.le_refl 0
  | cons packet packets ih =>
      have size := Packet.length_toBytes packet
      rw [Packet.min] at size
      rw [bytesOf_cons, List.length_append, List.length_cons]
      omega

theorem drainAll_near {packets : List Packet} {rest : List UInt8} {s : σ}
    (small : ∀ packet ∈ packets, packet.toBytes.length ≤ packetSizeLimit)
    (short : rest.length ≤ 14) (holds : view s = ⟨[], bytesOf packets ++ rest⟩) :
    ∃ first t left, drainAll s = (first, t, .waits) ∧ view t = ⟨[], left⟩ ∧
      first <+: packets ∧ bytesOf packets ++ rest = bytesOf first ++ left ∧ left.length ≤ 14 := by
  have fewer := length_le_bytesOf packets
  apply drain_near small short holds
  rw [len_eq, holds, List.length_append]
  omega

/-- Complete packets at the start of the buffer are taken out, and what follows stays. -/
theorem drainAll_exact {packets : List Packet} {rest : List UInt8} {s : σ}
    (fit : ∀ packet ∈ packets, packet.Fits) (short : rest.length ≤ 14)
    (holds : view s = ⟨[], bytesOf packets ++ rest⟩) :
    ∃ t, drainAll s = (packets, t, .waits) ∧ view t = ⟨[], rest⟩ := by
  obtain ⟨first, t, left, drained, kept, ⟨later, rfl⟩, split, near⟩ :=
    drainAll_near (fun packet mem => (fit packet mem).2) short holds
  rw [bytesOf_append, List.append_assoc, List.append_cancel_left_eq] at split
  -- A packet that was left in the buffer would be longer than a header.
  have sizes := congrArg List.length split
  rw [List.length_append] at sizes
  obtain rfl := eq_nil_of_bytesOf (fun packet mem => fit packet (List.mem_append_right _ mem))
    (show (bytesOf later).length ≤ 14 by omega)
  rw [bytesOf_nil, List.nil_append] at split
  exact ⟨t, by rw [drained, List.append_nil], by rw [kept, split]⟩

end Drain

/-- The reads one by one, with the loop over the buffer after each. It ends without a result
when the parser fails or panics. -/
def reassemble : σ → List (List UInt8) → Option (List Packet × σ)
  | recvBuf, [] => some ([], recvBuf)
  | recvBuf, bytes :: reads =>
      match drainAll (put recvBuf bytes).2 with
      | (packets, recvBuf, .waits) =>
          (reassemble recvBuf reads).map fun (more, recvBuf) => (packets ++ more, recvBuf)
      | _ => none

/-- After each read, at most a header follows the last complete packet. -/
def EndsNear (packets : List Packet) (reads : List (List UInt8)) : Prop :=
  ∀ front ∈ reads.inits, ∃ done ∈ packets.inits,
    (bytesOf done).length ≤ front.flatten.length ∧
      front.flatten.length ≤ (bytesOf done).length + 14

instance (packets : List Packet) (reads : List (List UInt8)) :
    Decidable (EndsNear packets reads) :=
  inferInstanceAs (Decidable (∀ front ∈ reads.inits, ∃ done ∈ packets.inits, _))

theorem reassemble_cons {s t : σ} {bytes : List UInt8} {reads : List (List UInt8)}
    {packets : List Packet} (result : reassemble s (bytes :: reads) = some (packets, t)) :
    ∃ first next later, drainAll (put s bytes).2 = (first, next, .waits) ∧
      reassemble next reads = some (later, t) ∧ packets = first ++ later := by
  rw [reassemble] at result
  split at result
  · next first next drained =>
    obtain ⟨⟨later, last⟩, rest, same⟩ := Option.map_eq_some_iff.mp result
    cases same
    exact ⟨first, next, later, drained, rest, rfl⟩
  · cases result

section Reassembly

variable [LawfulByteStream σ]

/-- Each read is appended to the buffer, as it is while there is room. -/
def Appends : σ → List (List UInt8) → Prop
  | _, [] => True
  | recvBuf, bytes :: reads =>
      view (put recvBuf bytes).2 = (view recvBuf).append bytes ∧
        Appends (drainAll (put recvBuf bytes).2).2.1 reads

instance : ∀ (recvBuf : σ) (reads : List (List UInt8)), Decidable (Appends recvBuf reads)
  | _, [] => isTrue trivial
  | recvBuf, bytes :: reads =>
      have := instDecidableAppends (drainAll (put recvBuf bytes).2).2.1 reads
      inferInstanceAs (Decidable (_ ∧ _))

theorem Appends.next {s t : σ} {bytes : List UInt8} {reads : List (List UInt8)}
    {packets : List Packet} {drained : Drained} (appends : Appends s (bytes :: reads))
    (result : drainAll (put s bytes).2 = (packets, t, drained)) :
    view (put s bytes).2 = (view s).append bytes ∧ Appends t reads := by
  obtain ⟨held, later⟩ := appends
  rw [result] at later
  exact ⟨held, later⟩

/-- There are never more bytes in the packets than in the reads. -/
theorem reassemble_le {s t : σ} {reads : List (List UInt8)} {packets : List Packet}
    (appends : Appends s reads) (result : reassemble s reads = some (packets, t)) :
    (bytesOf packets).length + (view t).ahead.length ≤
      (view s).ahead.length + reads.flatten.length := by
  induction reads generalizing s packets with
  | nil =>
      cases result
      simp
  | cons bytes reads ih =>
      obtain ⟨first, next, later, drained, rest, rfl⟩ := reassemble_cons result
      obtain ⟨held, appends⟩ := appends.next drained
      obtain ⟨lost, split, _⟩ := drain_spec drained
      have bound := ih appends rest
      have sizes := congrArg List.length split
      simp only [held, Cursor.append, List.length_append] at sizes
      simp only [bytesOf_append, List.flatten_cons, List.length_append]
      omega

/-- When no byte is missing, each read ended near the end of a packet. -/
theorem reassemble_near {s t : σ} {reads : List (List UInt8)} {packets : List Packet}
    (appends : Appends s reads) (result : reassemble s reads = some (packets, t))
    (clean : (view s).passed = [])
    (short : (view s).ahead.length ≤ 14)
    (exact : (bytesOf packets).length + (view t).ahead.length =
      (view s).ahead.length + reads.flatten.length)
    {front : List (List UInt8)} (before : front <+: reads) :
    ∃ done, done <+: packets ∧
      (bytesOf done).length ≤ (view s).ahead.length + front.flatten.length ∧
      (view s).ahead.length + front.flatten.length ≤ (bytesOf done).length + 14 := by
  induction reads generalizing s packets front with
  | nil =>
      obtain rfl := List.prefix_nil.mp before
      exact ⟨[], List.nil_prefix, Nat.zero_le _, by simpa using short⟩
  | cons bytes reads ih =>
      obtain rfl | ⟨front, rfl, within⟩ := List.prefix_cons_iff.mp before
      · exact ⟨[], List.nil_prefix, Nat.zero_le _, by simpa using short⟩
      obtain ⟨first, next, later, drained, rest, rfl⟩ := reassemble_cons result
      obtain ⟨held, appends⟩ := appends.next drained
      obtain ⟨lost, split, near⟩ := drain_spec drained
      have bound := reassemble_le appends rest
      have sizes := congrArg List.length split
      simp only [held, Cursor.append, List.length_append] at sizes
      simp only [bytesOf_append, List.flatten_cons, List.length_append] at exact ⊢
      obtain header | ⟨rfl, few, kept⟩ := near rfl
      · simp only [Packet.min] at header
        omega
      have clean' := kept (by rw [held]; exact clean)
      rw [len_eq, clean'] at few
      simp only [List.length_nil, Packet.min] at few sizes
      obtain ⟨done, inside, low, high⟩ := ih appends rest clean' (by omega) (by omega) within
      refine ⟨first ++ done, List.prefix_append_right_inj first |>.mpr inside, ?_, ?_⟩ <;>
      · simp only [bytesOf_append, List.length_append]
        omega

/-- Reads that end near the ends of packets give the packets back. -/
theorem reassemble_of_near {s : σ} {reads : List (List UInt8)} {packets : List Packet}
    (fit : ∀ packet ∈ packets, packet.Fits) (appends : Appends s reads)
    (clean : (view s).passed = []) (short : (view s).ahead.length ≤ 14)
    (whole : (view s).ahead ++ reads.flatten = bytesOf packets)
    (near : ∀ front, front <+: reads → ∃ done, done <+: packets ∧
      (bytesOf done).length ≤ (view s).ahead.length + front.flatten.length ∧
      (view s).ahead.length + front.flatten.length ≤ (bytesOf done).length + 14) :
    ∃ t, reassemble s reads = some (packets, t) := by
  induction reads generalizing s packets with
  | nil =>
      rw [List.flatten_nil, List.append_nil] at whole
      obtain rfl := eq_nil_of_bytesOf fit (whole ▸ short)
      exact ⟨s, rfl⟩
  | cons bytes reads ih =>
      obtain ⟨done, ⟨later, rfl⟩, low, high⟩ := near [bytes] (by simp)
      simp only [List.flatten_cons, List.flatten_nil, List.append_nil] at low high
      rw [List.flatten_cons, ← List.append_assoc, bytesOf_append] at whole
      -- What follows the complete packets in the buffer.
      obtain ⟨rest, split, after⟩ : ∃ rest, (view s).ahead ++ bytes = bytesOf done ++ rest ∧
          rest ++ reads.flatten = bytesOf later := by
        obtain ⟨rest, split, after⟩ | ⟨rest, split, after⟩ := List.append_eq_append_iff.mp whole
        · have none : rest = [] := by
            have sizes := congrArg List.length split
            simp only [List.length_append] at sizes
            exact List.eq_nil_of_length_eq_zero (by omega)
          rw [none, List.append_nil] at split
          rw [none, List.nil_append] at after
          exact ⟨[], by rw [split, List.append_nil], by rw [List.nil_append, after]⟩
        · exact ⟨rest, split, after.symm⟩
      have sizes := congrArg List.length split
      simp only [List.length_append] at sizes
      obtain ⟨next, drained, left⟩ := @drainAll_exact _ _ _ done rest (put s bytes).2
        (fun packet mem => fit packet (List.mem_append_left _ mem)) (by omega)
        (by rw [appends.1, Cursor.append, clean, split])
      obtain ⟨_, appends⟩ := appends.next drained
      obtain ⟨t, result⟩ := @ih next later
        (fun packet mem => fit packet (List.mem_append_right _ mem)) appends (by rw [left])
        (by rw [left]; show rest.length ≤ 14; omega) (by rw [left]; exact after) (by
          intro front before
          obtain ⟨done', inside, low', high'⟩ :=
            near (bytes :: front) (List.cons_prefix_cons.mpr ⟨rfl, before⟩)
          simp only [List.flatten_cons, List.length_append, left] at low' high' ⊢
          obtain shorter | longer :=
            List.prefix_or_prefix_of_prefix inside (List.prefix_append done later)
          · obtain ⟨more, rfl⟩ := shorter
            simp only [bytesOf_append, List.length_append] at sizes
            exact ⟨[], List.nil_prefix, Nat.zero_le _, by
              simp only [bytesOf_nil, List.length_nil]
              omega⟩
          · obtain ⟨more, rfl⟩ := longer
            simp only [bytesOf_append, List.length_append] at low' high'
            exact ⟨more, (List.prefix_append_right_inj done).mp inside, by omega, by omega⟩)
      exact ⟨t, by rw [reassemble, drained]; simp [result]⟩

/-- **Reassembly.** Packets that were sent back to back come out of the reads, complete and in
order, exactly when each read ends near the end of a packet. The buffer appends what it is
given. -/
theorem reassemble_iff {packets : List Packet} {reads : List (List UInt8)}
    (fit : ∀ packet ∈ packets, packet.Fits) (whole : reads.flatten = bytesOf packets)
    (capacity : Nat) (appends : Appends (withCapacity capacity : σ) reads) :
    (reassemble (withCapacity capacity : σ) reads).map Prod.fst = some packets ↔
      EndsNear packets reads := by
  have empty := view_withCapacity (σ := σ) capacity
  simp only [EndsNear, List.mem_inits]
  constructor
  · intro result front before
    obtain ⟨⟨packets, t⟩, parsed, rfl⟩ := Option.map_eq_some_iff.mp result
    have bound := reassemble_le appends parsed
    have sizes : reads.flatten.length = (bytesOf packets).length := congrArg List.length whole
    obtain ⟨done, inside, low, high⟩ := reassemble_near appends parsed (by rw [empty])
      (by simp [empty]) (by simp only [empty, List.length_nil] at bound ⊢; omega) before
    simp only [empty, List.length_nil, Nat.zero_add] at low high
    exact ⟨done, inside, low, high⟩
  · intro near
    obtain ⟨t, result⟩ := @reassemble_of_near σ _ _ (withCapacity capacity) reads packets fit
      appends (by rw [empty]) (by simp [empty]) (by rw [empty]; exact whole)
      (by simpa [empty] using near)
    rw [result]
    rfl

end Reassembly

/-! ## Connections that are fed -/

def Call.sends : Call → Bool
  | .send _ _ => true
  | _ => false

/-- What a connection sends on for its packets. -/
def shipped {α : Type} [SocketAddr α] (host : α) (packets : List Packet) : List Call :=
  (packets.flatMap (Connection.delivered host)).filter Call.sends

theorem shipped_append {α : Type} [SocketAddr α] (host : α) (packets more : List Packet) :
    shipped host (packets ++ more) = shipped host packets ++ shipped host more := by
  rw [shipped, List.flatMap_append, List.filter_append, ← shipped, ← shipped]

theorem shipped_mono {α : Type} [SocketAddr α] {host : α} {done packets : List Packet}
    (before : done <+: packets) : shipped host done <+: shipped host packets := by
  obtain ⟨later, rfl⟩ := before
  rw [shipped_append]
  exact List.prefix_append _ _

section Feed

variable {α : Type} [SocketAddr α] {me : Tag} {host : α} {socket : Socket α}
variable {conn : Connection σ}

theorem Connection.deliver_answered (answers : ∀ i, socket.peerAddr i = some host) (i : Nat)
    (packets : List Packet) :
    deliver socket i packets = (packets.flatMap (delivered host), true) := by
  induction packets generalizing i with
  | nil => rfl
  | cons packet packets ih => simp [deliver, answers, ih]

/-- An open connection that has nothing to write reads its bytes and delivers the packets. -/
theorem Connection.receive_read {envelope : Envelope} {isWritable : Bool} {bytes : List UInt8}
    {packets : List Packet} {recvBuf : σ} (opened : conn.isOpen = true)
    (unsent : len conn.sendBuf = 0) (work : envelope.message = .work true isWritable)
    (answer : socket.read = some bytes) (some_bytes : bytes ≠ [])
    (drained : drainAll (put conn.recvBuf bytes).2 = (packets, recvBuf, .waits)) :
    conn.receive me socket envelope = ((deliver socket 0 packets).1,
      if (deliver socket 0 packets).2 then
        some { conn with
          recvBuf := recvBuf
          canRead := true
          canWrite := conn.canWrite || isWritable }
      else none) := by
  obtain ⟨byte, rest, rfl⟩ := List.exists_cons_of_ne_nil some_bytes
  cases answered : (deliver socket 0 packets).2 <;>
    simp [receive, work, read, answer, keepOpen, opened, process, drained, answered, flush, unsent]

/-- One `Work` message for each read. -/
def Connection.feed (me : Tag) (host : α) :
    Connection σ → List (List UInt8) → List Call × Option (Connection σ)
  | conn, [] => ([], some conn)
  | conn, bytes :: reads =>
      match conn.receive me ⟨some bytes, fun _ => some host, true⟩ (.of (.work true false)) with
      | (calls, none) => (calls, none)
      | (calls, some conn) =>
          let (more, conn) := feed me host conn reads
          (calls ++ more, conn)

/-- What is put together from the reads is what the connection delivers. -/
theorem Connection.feed_reassemble {reads : List (List UInt8)} {packets : List Packet}
    {recvBuf : σ} (opened : conn.isOpen = true) (unsent : len conn.sendBuf = 0)
    (some_bytes : ∀ bytes ∈ reads, bytes ≠ [])
    (result : reassemble conn.recvBuf reads = some (packets, recvBuf)) :
    ∃ last, conn.feed me host reads = (packets.flatMap (delivered host), some last) ∧
      last.isOpen = true ∧ last.recvBuf = recvBuf := by
  induction reads generalizing conn packets with
  | nil =>
      cases result
      exact ⟨conn, rfl, opened, rfl⟩
  | cons bytes reads ih =>
      obtain ⟨first, next, later, drained, rest, rfl⟩ := reassemble_cons result
      have step : conn.receive me ⟨some bytes, fun _ => some host, true⟩
          (.of (.work true false)) = (first.flatMap (delivered host), some { conn with
            recvBuf := next
            canRead := true
            canWrite := conn.canWrite || false }) := by
        rw [Connection.receive_read opened unsent rfl rfl (some_bytes bytes List.mem_cons_self)
          drained, deliver_answered (fun _ => rfl)]
        rfl
      obtain ⟨last, fed, stays, left⟩ := @ih
        { conn with recvBuf := next, canRead := true, canWrite := conn.canWrite || false } later
        opened unsent (fun b mem => some_bytes b (List.mem_cons_of_mem _ mem)) rest
      refine ⟨last, ?_, stays, left⟩
      rw [feed, step]
      simp only [fed, List.flatMap_append]

end Feed

/-- Two packets, of 18 and 19 bytes. -/
def letters : List Packet := [⟨"a", "b", [1, 2], 9⟩, ⟨"c", "", [3, 4, 5, 6], 9⟩]

/-- The reads end behind the first packet and 2 bytes, and behind a header. -/
def gentle : List (List UInt8) :=
  [(bytesOf letters).take 20, ((bytesOf letters).drop 20).take 11, (bytesOf letters).drop 31]

theorem reassemble_iff_gentle :
    (reassemble (withCapacity 64 : Buffer) gentle).map Prod.fst = some letters :=
  (reassemble_iff (by decide) (by decide) 64 (by decide)).mpr (by decide)

/-- The first read ends inside the first packet, 15 bytes behind its start. -/
def harsh : List (List UInt8) := [(bytesOf letters).take 15, (bytesOf letters).drop 15]

/-- The header of the first packet is read for nothing. What follows it is then taken for
another header, and the parser fails. -/
theorem reassemble_harsh :
    (∀ packet ∈ letters, packet.Fits) ∧ harsh.flatten = bytesOf letters ∧
      (∀ bytes ∈ harsh, 1 ≤ bytes.length ∧ bytes.length ≤ 1024) ∧
      Appends (withCapacity 64 : Buffer) harsh ∧
      reassemble (withCapacity 64 : Buffer) harsh = none := by
  decide

end Uppercut
