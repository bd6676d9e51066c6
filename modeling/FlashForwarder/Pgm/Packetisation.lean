import FlashForwarder.Pgm.Sender

/-!
# The stream of the packets

The payloads of the packets, one after the other, are the bytes of the batches.  The offset of a
packet, where it has one, is the place of the first byte of a batch.
-/

namespace FlashForwarder

open ProgramLoop

/-- What is in a packet, apart from its index. -/
structure Packet where
  /-- The word in front. -/
  word : UInt16
  /-- The payload. -/
  payload : List UInt8

/-- The payloads of some packets, one after the other. -/
def payloads (packets : List Packet) : List UInt8 := (packets.map Packet.payload).flatten

/-- The datagrams of some packets, with consecutive indices. -/
def datagrams (first : UInt32) (packets : List Packet) : List (List UInt8) :=
  packets.mapIdx fun k packet => datagram packet.word (first + UInt32.ofNat k) packet.payload

/-- A packet that comes after so many bytes of the stream tells where a batch begins, or does not
tell anything. -/
def Marks (batches : List (List UInt8)) (before : Nat) (word : UInt16) (payload : List UInt8) :
    Prop :=
  word &&& kNonExistOffset ≠ kNonExistOffset → ∃ front back, batches = front ++ back ∧
    before + (word &&& kNonExistOffset).toNat = front.flatten.length ∧
      (word &&& kNonExistOffset).toNat ≤ payload.length

@[simp] theorem payloads_concat (packets : List Packet) (packet : Packet) :
    payloads (packets ++ [packet]) = payloads packets ++ packet.payload := by
  simp [payloads]

theorem datagrams_concat (first : UInt32) (packets : List Packet) (packet : Packet) :
    datagrams first (packets ++ [packet]) = datagrams first packets ++
      [datagram packet.word (first + UInt32.ofNat packets.length) packet.payload] := by
  simp [datagrams, List.mapIdx_append]

theorem getElem?_datagrams {first : UInt32} {packets : List Packet} {k : Nat} {bytes : List UInt8}
    (here : (datagrams first packets)[k]? = some bytes) :
    ∃ packet, packets[k]? = some packet ∧
      bytes = datagram packet.word (first + UInt32.ofNat k) packet.payload := by
  rw [datagrams, List.getElem?_mapIdx, Option.map_eq_some_iff] at here
  obtain ⟨packet, found, rfl⟩ := here
  exact ⟨packet, found, rfl⟩

@[simp] theorem map_payloadOf_datagrams (first : UInt32) (packets : List Packet) :
    (datagrams first packets).map payloadOf = packets.map Packet.payload := by
  apply List.ext_getElem?
  intro k
  simp only [datagrams, List.getElem?_map, List.getElem?_mapIdx, Option.map_map]
  rfl

/-- Later batches and more payload do not move a mark. -/
theorem Marks.extend {batches : List (List UInt8)} {before : Nat} {word : UInt16}
    {payload : List UInt8} (marks : Marks batches before word payload)
    (later : List (List UInt8)) (more : List UInt8) :
    Marks (batches ++ later) before word (payload ++ more) := by
  intro exists_
  obtain ⟨front, back, rfl, place, inside⟩ := marks exists_
  refine ⟨front, back ++ later, List.append_assoc .., place, ?_⟩
  rw [List.length_append]
  omega

namespace PGMSender

variable {σ π : Type} {options : SenderOptions σ π}

theorem room_lt : room options < 8191 := by
  have := options.outBufferSize_le
  rw [pgmMaxTpdu] at this
  rw [room]
  omega

theorem offsetMask_high : options.offsetMask &&& kNonExistOffset = 0 := by
  apply UInt16.toNat_inj.mp
  rw [toNat_and_nonExist, SenderOptions.offsetMask, UInt16.toNat_or,
    show (8192 : Nat) = 2 ^ 13 from rfl, Nat.or_mod_two_pow]
  have level : (UInt16.ofNat (options.compressLevel <<< kOffsetBitCount)).toNat % 2 ^ 13 = 0 := by
    rw [UInt16.toNat_ofNat', Nat.shiftLeft_eq, kOffsetBitCount]
    omega
  rw [level]
  split <;> rfl

/-! ## Filling one packet -/

/-- The bytes of the current batch that are not in a packet yet. -/
def rest (sender : PGMSender σ π) : List UInt8 :=
  match sender.current with
  | none => []
  | some batch => batch.drop sender.currentOffset

/-- A packet is being filled after the bytes `before` of the stream. -/
structure Filled (batches : List (List UInt8)) (before : List UInt8) (sender : PGMSender σ π)
    (filling : Filling σ π) : Prop where
  stream : before ++ filling.payload ++ filling.sender.rest = (batches ++ filling.batches).flatten
  marks : Marks (batches ++ filling.batches) before.length filling.offset filling.payload
  cursor : filling.sender.current = none → filling.sender.currentOffset = 0
  nextIndex : filling.sender.nextIndex = sender.nextIndex
  writeSize : filling.sender.writeSize = sender.writeSize

variable {batches : List (List UInt8)} {before : List UInt8} {sender : PGMSender σ π}

/-- Once a message was read, others do not change the offset. -/
theorem marked_take {filling : Filling σ π} (inside : filling.payload.length < room options)
    (msg : List UInt8) (ioPipe : π) :
    marked options (take options filling msg ioPipe) = marked options filling := by
  have small : filling.payload.length < 8191 := Nat.lt_trans inside room_lt
  have exists_ : ¬kNonExistOffset = marked options filling &&& kNonExistOffset := by
    rw [marked]
    split
    · intro same
      have := congrArg UInt16.toNat same
      rw [toNat_marked offsetMask_high (by omega)] at this
      exact absurd this.symm (Nat.ne_of_lt small)
    · assumption
  exact if_neg exists_

/-- Reading messages marks the packet, and otherwise concerns the serialiser and the pipe only. -/
theorem gather_spec (count : Nat) {filling : Filling σ π}
    (inside : filling.payload.length < room options) :
    ∃ serializer ioPipe available, gather options count filling =
      (⟨{ filling.sender with serializer := serializer, ioPipe := ioPipe },
        if available then marked options filling else filling.offset, filling.payload,
        filling.batches⟩, available) := by
  induction count generalizing filling with
  | zero => exact ⟨filling.sender.serializer, filling.sender.ioPipe, false, rfl⟩
  | succ count ih =>
      rw [gather]
      rcases options.read filling.sender.ioPipe with ⟨_ | msg, ioPipe⟩
      · exact ⟨filling.sender.serializer, ioPipe, false, rfl⟩
      · have inside' : (take options filling msg ioPipe).payload.length < room options := inside
        obtain ⟨serializer, ioPipe', available, gathered⟩ := ih inside'
        refine ⟨serializer, ioPipe', true, ?_⟩
        dsimp only
        rw [gathered, marked_take inside]
        cases available <;> rfl

/-- Copying moves bytes of the current batch into the packet. -/
theorem Filled.copy {filling : Filling σ π} {batch : List UInt8}
    (filled : Filled batches before sender filling)
    (current : filling.sender.current = some batch) :
    Filled batches before sender (PGMSender.copy options filling batch) := by
  obtain ⟨stream, marks, cursor, nextIndex, writeSize⟩ := filled
  rw [rest, current] at stream
  dsimp only at stream
  have split := List.take_append_drop
    (min (batch.length - filling.sender.currentOffset) (room options - filling.payload.length))
    (batch.drop filling.sender.currentOffset)
  have more := marks.extend [] ((batch.drop filling.sender.currentOffset).take
    (min (batch.length - filling.sender.currentOffset) (room options - filling.payload.length)))
  rw [List.append_nil] at more
  rw [← split, List.drop_drop] at stream
  rw [PGMSender.copy]
  dsimp only
  split
  · rename_i done
    refine ⟨?_, more, fun _ => rfl, nextIndex, writeSize⟩
    rw [List.drop_eq_nil_of_le done, List.append_nil] at stream
    simpa [rest] using stream
  · refine ⟨?_, more, fun ended => absurd (current.symm.trans ended) nofun, nextIndex, writeSize⟩
    simpa [rest, current] using stream

/-- A batch that is flushed between two others begins where the packet is marked. -/
theorem Filled.flush {filling : Filling σ π} (filled : Filled batches before sender filling)
    (inside : filling.payload.length < room options) (ended : filling.sender.current = none)
    (serializer : σ) (ioPipe : π) (batch : List UInt8) :
    Filled batches before sender
      ⟨{ filling.sender with
          serializer := serializer, ioPipe := ioPipe, current := some batch },
        marked options filling, filling.payload, filling.batches ++ [batch]⟩ := by
  obtain ⟨stream, marks, cursor, nextIndex, writeSize⟩ := filled
  have start : filling.sender.currentOffset = 0 := cursor ended
  rw [rest, ended] at stream
  dsimp only at stream
  rw [List.append_nil] at stream
  refine ⟨?_, ?_, nofun, nextIndex, writeSize⟩
  · rw [rest]
    dsimp only
    rw [start, List.drop_zero, stream]
    simp
  · dsimp only
    rw [← List.append_assoc, marked]
    split
    · intro _
      have small : filling.payload.length < 8191 := Nat.lt_trans inside room_lt
      rw [toNat_marked offsetMask_high (by omega)]
      refine ⟨batches ++ filling.batches, [batch], rfl, ?_, Nat.le_refl _⟩
      rw [← stream, List.length_append]
    · have more := marks.extend [batch] []
      rwa [List.append_nil] at more

/-- Each pass keeps the stream whole. -/
theorem Filled.again {filling next : Filling σ π} (filled : Filled batches before sender filling)
    (passed : pass options filling = .again next) : Filled batches before sender next := by
  rw [pass] at passed
  split at passed
  · rename_i inside
    split at passed
    · rename_i batch current
      obtain rfl := Pass.again.inj passed
      exact filled.copy current
    · rename_i current
      obtain ⟨serializer, ioPipe, available, gathered⟩ := gather_spec kMaxMessagePerTime inside
      rw [gathered] at passed
      cases available with
      | false => exact absurd passed nofun
      | true =>
          obtain rfl := Pass.again.inj passed
          exact Filled.copy (filled.flush inside current _ ioPipe _) rfl
  · exact absurd passed nofun

theorem Filled.leave {filling result : Filling σ π} (filled : Filled batches before sender filling)
    (passed : pass options filling = .leave result) : Filled batches before sender result := by
  rw [pass] at passed
  split at passed
  · rename_i inside
    split at passed
    · exact absurd passed nofun
    · obtain ⟨serializer, ioPipe, available, gathered⟩ := gather_spec kMaxMessagePerTime inside
      rw [gathered] at passed
      cases available with
      | false =>
          obtain rfl := Pass.leave.inj passed
          exact { filled with }
      | true => exact absurd passed nofun
  · obtain rfl := Pass.leave.inj passed
    exact filled

theorem Filled.start {packets : List Packet}
    (whole : payloads packets ++ sender.rest = batches.flatten)
    (cursor : sender.current = none → sender.currentOffset = 0) :
    Filled batches (payloads packets) sender (PGMSender.start options sender) where
  stream := by simpa [PGMSender.start] using whole
  marks := by
    intro exists_
    refine absurd (UInt16.toNat_inj.mp ?_) exists_
    exact toNat_marked offsetMask_high (show 8191 < 8192 by omega)
  cursor := cursor
  nextIndex := rfl
  writeSize := rfl

/-! ## One packet after the other -/

/-- The packet that waits to be sent. -/
def pending (sender : PGMSender σ π) : List (List UInt8) :=
  if sender.writeSize = 0 then [] else [sender.outBuffer]

/-- The packets that were sent or wait to be sent carry the bytes of the batches, but for what is
left of the current batch. -/
structure Packetised (first : UInt32) (batches sent : List (List UInt8)) (packets : List Packet)
    (sender : PGMSender σ π) : Prop where
  encoded : sent ++ sender.pending = datagrams first packets
  stream : payloads packets ++ sender.rest = batches.flatten
  marks : ∀ front packet back, packets = front ++ packet :: back →
    Marks batches (payloads front).length packet.word packet.payload
  nextIndex : sender.nextIndex = first + UInt32.ofNat packets.length
  cursor : sender.current = none → sender.currentOffset = 0

variable {first : UInt32} {sent : List (List UInt8)} {packets : List Packet}

theorem Packetised.send (packetised : Packetised first batches sent packets sender)
    (waiting : sender.writeSize ≠ 0) (status : SendStatus) :
    Packetised first batches (sent ++ (PGMSender.send sender status).1.toList) packets
      (PGMSender.send sender status).2 := by
  obtain ⟨encoded, stream, marks, nextIndex, cursor⟩ := packetised
  rw [pending, if_neg waiting] at encoded
  have timer : ∀ hasTxTimer, sender.hasTxTimer = hasTxTimer → Packetised first batches
      (sent ++ (PGMSender.send sender status).1.toList) packets
      (PGMSender.send sender status).2 := by
    intro hasTxTimer timer
    cases hasTxTimer <;> cases status <;>
      simp only [PGMSender.send, timer, Option.toList, List.append_nil, if_true, if_false,
        Bool.false_eq_true] <;>
      refine ⟨?_, stream, marks, nextIndex, cursor⟩ <;> simpa [pending, waiting] using encoded
  exact timer _ rfl

/-- Later batches do not move the marks of the packets. -/
theorem Packetised.marks_later (packetised : Packetised first batches sent packets sender)
    (later : List (List UInt8)) : ∀ front packet back, packets = front ++ packet :: back →
      Marks (batches ++ later) (payloads front).length packet.word packet.payload := by
  intro front packet back split
  have more := (packetised.marks front packet back split).extend later []
  rwa [List.append_nil] at more

section

variable {filling : Filling σ π} (packetised : Packetised first batches sent packets sender)
  (ready : sender.writeSize = 0) (filled : Filled batches (payloads packets) sender filling)

include packetised ready filled

theorem Packetised.nothing (empty : filling.payload = []) :
    Packetised first (batches ++ filling.batches) sent packets
      { filling.sender with pollout := false } := by
  have later := packetised.marks_later filling.batches
  obtain ⟨encoded, whole, marks, nextIndex, cursor⟩ := packetised
  obtain ⟨stream', marks', cursor', nextIndex', writeSize'⟩ := filled
  rw [pending, if_pos ready, List.append_nil] at encoded
  rw [empty, List.append_nil] at stream'
  refine ⟨?_, stream', later, nextIndex'.trans nextIndex, cursor'⟩
  simpa [pending, writeSize', ready] using encoded

theorem Packetised.packed :
    Packetised first (batches ++ filling.batches) sent
      (packets ++ [⟨filling.offset, filling.payload⟩]) (PGMSender.packed filling) := by
  have later := packetised.marks_later filling.batches
  obtain ⟨encoded, whole, marks, nextIndex, cursor⟩ := packetised
  obtain ⟨stream', marks', cursor', nextIndex', writeSize'⟩ := filled
  rw [pending, if_pos ready, List.append_nil] at encoded
  refine ⟨?_, ?_, ?_, ?_, cursor'⟩
  · rw [datagrams_concat, ← encoded, pending, PGMSender.packed]
    simp [headerSize, nextIndex', nextIndex]
  · rw [payloads_concat]
    exact stream'
  · intro front packet back split
    rcases List.eq_nil_or_concat back with rfl | ⟨inner, final, rfl⟩
    · obtain ⟨rfl, same⟩ := List.append_inj' split rfl
      obtain rfl := List.head_eq_of_cons_eq same
      exact marks'
    · rw [List.concat_eq_append, ← List.cons_append, ← List.append_assoc] at split
      obtain ⟨rfl, _⟩ := List.append_inj' split rfl
      exact later front packet inner rfl
  · rw [List.length_append, List.length_singleton, PGMSender.packed]
    dsimp only
    rw [nextIndex', nextIndex, UInt32.ofNat_add, UInt32.add_assoc]
    rfl

end

theorem writeSize_packed (filling : Filling σ π) : (packed filling).writeSize ≠ 0 := by
  simp [packed, headerSize]

/-- A call of `OutEvent` keeps the packets in line with the batches. -/
theorem Packetised.outEvent (packetised : Packetised first batches sent packets sender)
    {fuel : Nat} {status : SendStatus} {seen : Sent} {next : PGMSender σ π}
    (done : sender.outEvent options fuel status = some (seen, next)) :
    ∃ packets', packets <+: packets' ∧
      Packetised first (batches ++ seen.batches) (sent ++ seen.packet.toList) packets' next := by
  rw [PGMSender.outEvent] at done
  split at done
  · rename_i ready
    obtain ⟨filling, ran, rest_⟩ := Option.bind_eq_some_iff.mp done
    have filled : Filled batches (payloads packets) sender filling :=
      Leaves.preserves (Filled batches (payloads packets) sender)
        (Filled batches (payloads packets) sender) (fun _ _ => Filled.again)
        (fun _ _ => Filled.leave) (Filled.start packetised.stream packetised.cursor) ⟨fuel, ran⟩
    split at rest_
    · rename_i empty
      obtain ⟨rfl, rfl⟩ := Prod.mk.inj (Option.some_inj.mp rest_)
      refine ⟨packets, List.prefix_rfl, ?_⟩
      rw [show (none : Option (List UInt8)).toList = [] from rfl, List.append_nil]
      exact packetised.nothing ready filled empty
    · obtain ⟨rfl, rfl⟩ := Prod.mk.inj (Option.some_inj.mp rest_)
      exact ⟨_, List.prefix_append _ _,
        (packetised.packed ready filled).send (writeSize_packed filling) status⟩
  · rename_i waiting
    obtain ⟨rfl, rfl⟩ := Prod.mk.inj (Option.some_inj.mp done)
    refine ⟨packets, List.prefix_rfl, ?_⟩
    rw [List.append_nil]
    exact packetised.send waiting status

end PGMSender

end FlashForwarder
