import FlashForwarder.Pgm.Packetisation
import Mathlib.Data.List.Induction

/-!
# What a packet says of itself

The offset of a packet is the place of the first batch that starts in it.  A serialiser that never
flushes an empty batch makes each call of `OutEvent` end, and makes every batch start with a byte of
the packet that is filled when it is flushed.
-/

namespace FlashForwarder

open ProgramLoop

/-! ## Where batches start -/

/-- A batch starts at this place of the stream. -/
def Starts (batches : List (List UInt8)) (place : Nat) : Prop :=
  ∃ front batch back, batches = front ++ batch :: back ∧ front.flatten.length = place

/-- The word of a packet that comes after so many bytes of the stream is the place in its payload of
the first batch that starts there, or says that none does. -/
def Describes (batches : List (List UInt8)) (before : Nat) (word : UInt16) (payload : List UInt8) :
    Prop :=
  (word &&& kNonExistOffset = kNonExistOffset ∧
      ∀ place < payload.length, ¬Starts batches (before + place)) ∨
    ((word &&& kNonExistOffset).toNat < payload.length ∧
      Starts batches (before + (word &&& kNonExistOffset).toNat) ∧
      ∀ place < (word &&& kNonExistOffset).toNat, ¬Starts batches (before + place))

theorem not_starts_nil (place : Nat) : ¬Starts [] place := by
  rintro ⟨front, batch, back, split, -⟩
  exact absurd split (by simp)

theorem Starts.extend {batches : List (List UInt8)} {place : Nat} (starts : Starts batches place)
    (later : List (List UInt8)) : Starts (batches ++ later) place := by
  obtain ⟨front, batch, back, rfl, at_⟩ := starts
  exact ⟨front, batch, back ++ later, by simp, at_⟩

/-- Batches that are added start behind those before. -/
theorem starts_append {batches later : List (List UInt8)} {place : Nat}
    (starts : Starts (batches ++ later) place) :
    Starts batches place ∨ batches.flatten.length ≤ place := by
  obtain ⟨front, batch, back, split, rfl⟩ := starts
  rcases List.append_eq_append_iff.mp split with ⟨more, rfl, -⟩ | ⟨more, rfl, rest⟩
  · right
    rw [List.flatten_append, List.length_append]
    omega
  · cases more with
    | nil => exact Or.inr (by simp)
    | cons first more =>
        obtain ⟨rfl, -⟩ := List.cons_eq_cons.mp (rest.trans List.cons_append)
        exact Or.inl ⟨front, batch, more, rfl, rfl⟩

/-- A batch that is added starts where those before end. -/
theorem starts_concat {batches : List (List UInt8)} (batch : List UInt8) {place : Nat} :
    Starts (batches ++ [batch]) place ↔
      Starts batches place ∨ place = batches.flatten.length := by
  constructor
  · rintro ⟨front, first, back, split, rfl⟩
    rcases List.eq_nil_or_concat back with rfl | ⟨inner, last, rfl⟩
    · obtain ⟨rfl, -⟩ := List.append_inj' split rfl
      exact Or.inr rfl
    · rw [List.concat_eq_append, ← List.cons_append, ← List.append_assoc] at split
      obtain ⟨rfl, -⟩ := List.append_inj' split rfl
      exact Or.inl ⟨front, first, inner, rfl, rfl⟩
  · rintro (starts | rfl)
    · exact starts.extend [batch]
    · exact ⟨batches, batch, [], rfl, rfl⟩

/-- Later batches do not concern a packet whose bytes were there before them. -/
theorem Describes.extend {batches : List (List UInt8)} {before : Nat} {word : UInt16}
    {payload : List UInt8} (describes : Describes batches before word payload)
    (inside : before + payload.length ≤ batches.flatten.length) (later : List (List UInt8)) :
    Describes (batches ++ later) before word payload := by
  have kept : ∀ place < payload.length, Starts (batches ++ later) (before + place) →
      Starts batches (before + place) := by
    intro place below starts
    exact (starts_append starts).resolve_right (by omega)
  rcases describes with ⟨nowhere, none⟩ | ⟨below, starts, first⟩
  · exact Or.inl ⟨nowhere, fun place below starts => none place below (kept place below starts)⟩
  · refine Or.inr ⟨below, starts.extend later, fun place earlier starts' => ?_⟩
    exact first place earlier (kept place (Nat.lt_trans earlier below) starts')

namespace PGMSender

variable {σ π : Type} (options : SenderOptions σ π)

/-- What a batch is taken from is never empty: `Flush` is called when a message was serialised. -/
def FlushesBytes : Prop :=
  ∀ serializer msg,
    (options.flush (options.onIncrement.getD options.serialize serializer msg)).1 ≠ []

/-- The filling of a packet once a batch was flushed. -/
def flushed (filling : Filling σ π) (serializer : σ) (ioPipe : π) : Filling σ π :=
  { sender :=
      { filling.sender with
        serializer := (options.flush serializer).2
        ioPipe := ioPipe
        current := some (options.flush serializer).1 }
    offset := marked options filling
    payload := filling.payload
    batches := filling.batches ++ [(options.flush serializer).1] }

/-- The batch that is held is still in the buffer that the serialiser gave: wherever a serialiser
keeps the bytes of its last `Flush`, they are those of the batch. -/
def Valid (sender : PGMSender σ π) : Prop :=
  ∀ buffer : σ → List UInt8,
    (∀ serializer, buffer (options.flush serializer).2 = (options.flush serializer).1) →
      ∀ batch, sender.current = some batch → buffer sender.serializer = batch

variable {options} {filling next : Filling σ π}

/-! ## One pass -/

theorem gather_serializer (options : SenderOptions σ π) (count : Nat) (filling : Filling σ π) :
    (gather options count filling).2 = false ∨ ∃ serializer msg,
      (gather options count filling).1.sender.serializer =
        options.onIncrement.getD options.serialize serializer msg := by
  have kept : ∀ (count : Nat) (filling : Filling σ π),
      (gather options count filling).1.sender.serializer = filling.sender.serializer ∨
        ∃ serializer msg, (gather options count filling).1.sender.serializer =
          options.onIncrement.getD options.serialize serializer msg := by
    intro count
    induction count with
    | zero => exact fun filling => Or.inl rfl
    | succ count ih =>
        intro filling
        rw [gather]
        rcases options.read filling.sender.ioPipe with ⟨_ | msg, ioPipe⟩
        · exact Or.inl rfl
        · rcases ih (take options filling msg ioPipe) with same | put
          · exact Or.inr ⟨_, _, same⟩
          · exact Or.inr put
  cases count with
  | zero => exact Or.inl rfl
  | succ count =>
      rw [gather]
      rcases options.read filling.sender.ioPipe with ⟨_ | msg, ioPipe⟩
      · exact Or.inl rfl
      · rcases kept count (take options filling msg ioPipe) with same | put
        · exact Or.inr ⟨_, _, same⟩
        · exact Or.inr put

/-- What a pass can do: the packet is full, or there is nothing to read, or bytes of the current
batch or of a new one are copied. -/
theorem pass_cases (options : SenderOptions σ π) (filling : Filling σ π) :
    (room options ≤ filling.payload.length ∧ pass options filling = .leave filling) ∨
    (filling.payload.length < room options ∧ ∃ batch, filling.sender.current = some batch ∧
      pass options filling = .again (copy options filling batch)) ∨
    (filling.payload.length < room options ∧ filling.sender.current = none ∧
      ∃ serializer ioPipe, pass options filling =
        .leave { filling with
          sender := { filling.sender with serializer := serializer, ioPipe := ioPipe } }) ∨
    (filling.payload.length < room options ∧ filling.sender.current = none ∧
      ∃ serializer msg ioPipe, pass options filling = .again (copy options
        (flushed options filling
          (options.onIncrement.getD options.serialize serializer msg) ioPipe)
        (options.flush (options.onIncrement.getD options.serialize serializer msg)).1)) := by
  rw [pass]
  split
  · rename_i inside
    cases current : filling.sender.current with
    | some batch => exact Or.inr (Or.inl ⟨inside, batch, rfl, rfl⟩)
    | none =>
        obtain ⟨serializer, ioPipe, available, gathered⟩ := gather_spec kMaxMessagePerTime inside
        have serialized := gather_serializer options kMaxMessagePerTime filling
        rw [gathered] at serialized
        dsimp only
        rw [gathered]
        cases available with
        | false => exact Or.inr (Or.inr (Or.inl ⟨inside, rfl, serializer, ioPipe, rfl⟩))
        | true =>
            obtain ⟨before, msg, put⟩ := serialized.resolve_left (by simp)
            obtain rfl : serializer = _ := put
            exact Or.inr (Or.inr (Or.inr ⟨inside, rfl, before, msg, ioPipe, rfl⟩))
  · rename_i full
    exact Or.inl ⟨Nat.le_of_not_lt full, rfl⟩

theorem length_copy (options : SenderOptions σ π) (filling : Filling σ π) (batch : List UInt8) :
    (copy options filling batch).payload.length = filling.payload.length +
      min (batch.length - filling.sender.currentOffset)
        (room options - filling.payload.length) := by
  rw [copy]
  simp only [List.length_append, List.length_take, List.length_drop]
  omega

/-- A batch is held only while there are bytes of it left. -/
theorem unread_copy {filling : Filling σ π} {batch : List UInt8}
    (current : filling.sender.current = some batch) (held : List UInt8)
    (kept : (copy options filling batch).sender.current = some held) :
    (copy options filling batch).sender.currentOffset < held.length := by
  rw [copy] at kept ⊢
  dsimp only at kept ⊢
  split at kept
  · exact absurd kept (by simp)
  · rename_i more
    obtain rfl : batch = held := Option.some_inj.mp (current.symm.trans kept)
    rw [if_neg more]
    exact Nat.lt_of_not_le more

theorem valid_copy (valid : Valid options filling.sender) (batch : List UInt8) :
    Valid options (copy options filling batch).sender := by
  intro buffer keeps held kept
  rw [copy] at kept ⊢
  dsimp only at kept ⊢
  split at kept
  · exact absurd kept (by simp)
  · rename_i more
    rw [if_neg more]
    exact valid buffer keeps held kept

/-! ## Filling one packet -/

/-- While a packet is filled after the bytes `before`, its offset is the place of the first batch
that starts in it, and every batch has started by now. -/
structure Tracked (options : SenderOptions σ π) (batches : List (List UInt8))
    (before : List UInt8) (sender : PGMSender σ π) (filling : Filling σ π) : Prop where
  filled : Filled batches before sender filling
  started : ∀ place, Starts (batches ++ filling.batches) place →
    place < before.length + filling.payload.length
  told : (filling.offset &&& kNonExistOffset = kNonExistOffset ∧
      ∀ place, Starts (batches ++ filling.batches) place → place < before.length) ∨
    ((filling.offset &&& kNonExistOffset).toNat < filling.payload.length ∧
      Starts (batches ++ filling.batches)
        (before.length + (filling.offset &&& kNonExistOffset).toNat) ∧
      ∀ place, Starts (batches ++ filling.batches) place → place < before.length ∨
        before.length + (filling.offset &&& kNonExistOffset).toNat ≤ place)
  unread : ∀ batch, filling.sender.current = some batch →
    filling.sender.currentOffset < batch.length
  valid : Valid options filling.sender

variable {batches : List (List UInt8)} {before : List UInt8} {sender : PGMSender σ π}

theorem Tracked.copy (tracked : Tracked options batches before sender filling) {batch : List UInt8}
    (current : filling.sender.current = some batch) :
    Tracked options batches before sender (PGMSender.copy options filling batch) := by
  obtain ⟨filled, started, told, unread, valid⟩ := tracked
  have more := length_copy options filling batch
  refine ⟨filled.copy current, fun place starts => ?_, ?_, unread_copy current,
    valid_copy valid batch⟩
  · exact Nat.lt_of_lt_of_le (started place starts) (by omega)
  · refine told.imp_right fun ⟨below, first⟩ => ⟨?_, first⟩
    exact Nat.lt_of_lt_of_le below (by omega)

/-- A batch that is flushed starts where the packet has got to, with a byte at least. -/
theorem Tracked.flush (tracked : Tracked options batches before sender filling)
    (inside : filling.payload.length < room options) (ended : filling.sender.current = none)
    {serializer : σ} (ioPipe : π) (bytes : (options.flush serializer).1 ≠ []) :
    Tracked options batches before sender (PGMSender.copy options
      (flushed options filling serializer ioPipe) (options.flush serializer).1) := by
  obtain ⟨filled, started, told, unread, -⟩ := tracked
  have cursor : filling.sender.currentOffset = 0 := filled.cursor ended
  have here : (batches ++ filling.batches).flatten.length =
      before.length + filling.payload.length := by
    have stream := filled.stream
    rw [rest, ended] at stream
    rw [← stream]
    simp
  have small : filling.payload.length < 8191 := Nat.lt_trans inside room_lt
  have more : filling.payload.length < (PGMSender.copy options
      (flushed options filling serializer ioPipe) (options.flush serializer).1).payload.length := by
    have positive := List.length_pos_iff.mpr bytes
    have amount := length_copy options
      (flushed options filling serializer ioPipe) (options.flush serializer).1
    have same : (flushed options filling serializer ioPipe).sender.currentOffset = 0 := cursor
    have same' : (flushed options filling serializer ioPipe).payload = filling.payload := rfl
    rw [same, same'] at amount
    omega
  have joined : ∀ place, Starts (batches ++ (filling.batches ++ [(options.flush serializer).1]))
      place ↔ Starts (batches ++ filling.batches) place ∨
        place = before.length + filling.payload.length := by
    intro place
    rw [← List.append_assoc, starts_concat, here]
  have fresh : Valid options (flushed options filling serializer ioPipe).sender := by
    intro buffer keeps held kept
    obtain rfl := Option.some_inj.mp kept
    exact keeps serializer
  refine ⟨Filled.copy (filled.flush inside ended _ ioPipe _) rfl, fun place starts => ?_, ?_,
    unread_copy rfl, valid_copy fresh _⟩
  · rcases (joined place).mp starts with old | rfl
    · exact Nat.lt_trans (started place old) (by omega)
    · omega
  · right
    change (marked options filling &&& kNonExistOffset).toNat < _ ∧
      Starts (batches ++ (filling.batches ++ [(options.flush serializer).1]))
        (before.length + (marked options filling &&& kNonExistOffset).toNat) ∧
      ∀ place, Starts (batches ++ (filling.batches ++ [(options.flush serializer).1])) place →
        place < before.length ∨
          before.length + (marked options filling &&& kNonExistOffset).toNat ≤ place
    simp only [joined]
    rcases told with ⟨nowhere, none⟩ | ⟨below, starts, first⟩
    · have place_eq : (marked options filling &&& kNonExistOffset).toNat =
          filling.payload.length := by
        rw [marked, if_pos nowhere.symm]
        exact toNat_marked offsetMask_high (by omega)
      rw [place_eq]
      refine ⟨more, Or.inr rfl, ?_⟩
      rintro place (old | rfl)
      · exact Or.inl (none place old)
      · exact Or.inr (Nat.le_refl _)
    · have same : marked options filling = filling.offset := by
        rw [marked, if_neg]
        intro nowhere
        rw [← nowhere] at below
        exact absurd (Nat.lt_trans below small) (by decide)
      rw [same]
      refine ⟨Nat.lt_trans below more, Or.inl starts, ?_⟩
      rintro place (old | rfl)
      · exact first place old
      · exact Or.inr (by omega)

/-- A pass that goes round again has filled in a byte at least. -/
theorem Tracked.again (bytes : FlushesBytes options)
    (tracked : Tracked options batches before sender filling)
    (passed : pass options filling = .again next) :
    Tracked options batches before sender next ∧ filling.payload.length < next.payload.length ∧
      filling.payload.length < room options := by
  rcases pass_cases options filling with ⟨-, left⟩ | ⟨inside, batch, current, again⟩ |
    ⟨-, -, serializer, ioPipe, left⟩ | ⟨inside, ended, serializer, msg, ioPipe, again⟩
  · exact absurd (left.symm.trans passed) (by simp)
  · obtain rfl := Pass.again.inj (again.symm.trans passed)
    have unread := tracked.unread batch current
    have more := length_copy options filling batch
    exact ⟨tracked.copy current, by omega, inside⟩
  · exact absurd (left.symm.trans passed) (by simp)
  · obtain rfl := Pass.again.inj (again.symm.trans passed)
    refine ⟨tracked.flush inside ended ioPipe (bytes serializer msg), ?_, inside⟩
    have positive := List.length_pos_iff.mpr (bytes serializer msg)
    have cursor : (flushed options filling
        (options.onIncrement.getD options.serialize serializer msg) ioPipe).sender.currentOffset =
        0 := tracked.filled.cursor ended
    have same : (flushed options filling
        (options.onIncrement.getD options.serialize serializer msg) ioPipe).payload =
        filling.payload := rfl
    have more := length_copy options (flushed options filling
      (options.onIncrement.getD options.serialize serializer msg) ioPipe)
      (options.flush (options.onIncrement.getD options.serialize serializer msg)).1
    rw [cursor, same] at more
    omega

theorem Tracked.leave (tracked : Tracked options batches before sender filling)
    (passed : pass options filling = .leave next) : Tracked options batches before sender next := by
  have filled := tracked.filled.leave passed
  rcases pass_cases options filling with ⟨-, left⟩ | ⟨-, batch, -, again⟩ |
    ⟨-, ended, serializer, ioPipe, left⟩ | ⟨-, -, serializer, msg, ioPipe, again⟩
  · obtain rfl := Pass.leave.inj (left.symm.trans passed)
    exact tracked
  · exact absurd (again.symm.trans passed) (by simp)
  · obtain rfl := Pass.leave.inj (left.symm.trans passed)
    refine ⟨filled, tracked.started, tracked.told, tracked.unread, fun buffer keeps held kept => ?_⟩
    exact absurd (ended.symm.trans kept) (by simp)
  · exact absurd (again.symm.trans passed) (by simp)

/-- As many passes as there are bytes in a packet, and one more, fill it. -/
theorem Tracked.ends (bytes : FlushesBytes options) {fuel : Nat}
    (tracked : Tracked options batches before sender filling)
    (enough : room options - filling.payload.length < fuel) :
    ∃ result, run (pass options) fuel filling = some result ∧
      Tracked options batches before sender result := by
  induction fuel generalizing filling with
  | zero => exact absurd enough (Nat.not_lt_zero _)
  | succ fuel ih =>
      cases passed : pass options filling with
      | leave result => exact ⟨result, run_succ_of_leave passed fuel, tracked.leave passed⟩
      | again next =>
          obtain ⟨tracked', more, inside⟩ := tracked.again bytes passed
          rw [run_succ_of_again passed]
          exact ih tracked' (by omega)

theorem Tracked.start {packets : List Packet}
    (whole : payloads packets ++ sender.rest = batches.flatten)
    (cursor : sender.current = none → sender.currentOffset = 0)
    (started : ∀ place, Starts batches place → place < (payloads packets).length)
    (unread : ∀ batch, sender.current = some batch → sender.currentOffset < batch.length)
    (valid : Valid options sender) :
    Tracked options batches (payloads packets) sender (PGMSender.start options sender) := by
  refine ⟨Filled.start whole cursor, ?_, Or.inl ⟨?_, ?_⟩, unread, valid⟩
  · simpa [PGMSender.start] using started
  · apply UInt16.toNat_inj.mp
    exact toNat_marked offsetMask_high (show 8191 < 8192 by omega)
  · simpa [PGMSender.start] using started

theorem Tracked.describes (tracked : Tracked options batches before sender filling) :
    Describes (batches ++ filling.batches) before.length filling.offset filling.payload := by
  rcases tracked.told with ⟨nowhere, none⟩ | ⟨below, starts, first⟩
  · refine Or.inl ⟨nowhere, fun place _ starts => ?_⟩
    exact absurd (none _ starts) (by omega)
  · refine Or.inr ⟨below, starts, fun place earlier starts' => ?_⟩
    have := first _ starts'
    omega

/-! ## One packet after the other -/

/-- Each packet describes itself, and no batch is left that has not started. -/
structure Described (options : SenderOptions σ π) (first : UInt32)
    (batches sent : List (List UInt8)) (packets : List Packet) (sender : PGMSender σ π) :
    Prop where
  packetised : Packetised first batches sent packets sender
  describes : ∀ front packet back, packets = front ++ packet :: back →
    Describes batches (payloads front).length packet.word packet.payload
  started : ∀ place, Starts batches place → place < (payloads packets).length
  unread : ∀ batch, sender.current = some batch → sender.currentOffset < batch.length
  valid : Valid options sender

variable {first : UInt32} {sent : List (List UInt8)} {packets : List Packet}

/-- Later batches do not concern the packets that are filled. -/
theorem Described.describes_later (described : Described options first batches sent packets sender)
    (later : List (List UInt8)) : ∀ front packet back, packets = front ++ packet :: back →
      Describes (batches ++ later) (payloads front).length packet.word packet.payload := by
  intro front packet back split
  refine (described.describes front packet back split).extend ?_ later
  have whole := congrArg List.length described.packetised.stream
  rw [split, List.length_append] at whole
  simp only [payloads, List.map_append, List.map_cons, List.flatten_append, List.flatten_cons,
    List.length_append] at whole ⊢
  omega

theorem Described.send (described : Described options first batches sent packets sender)
    (waiting : sender.writeSize ≠ 0) (status : SendStatus) :
    Described options first batches (sent ++ (PGMSender.send sender status).1.toList) packets
      (PGMSender.send sender status).2 := by
  have same : (PGMSender.send sender status).2.current = sender.current ∧
      (PGMSender.send sender status).2.currentOffset = sender.currentOffset ∧
      (PGMSender.send sender status).2.serializer = sender.serializer := by
    cases timer : sender.hasTxTimer <;> cases status <;> simp [PGMSender.send, timer]
  obtain ⟨packetised, describes, started, unread, valid⟩ := described
  refine ⟨packetised.send waiting status, describes, started, ?_, ?_⟩
  · rw [same.1, same.2.1]
    exact unread
  · rw [Valid, same.1, same.2.2]
    exact valid

theorem Described.nothing (described : Described options first batches sent packets sender)
    (ready : sender.writeSize = 0)
    (tracked : Tracked options batches (payloads packets) sender filling)
    (empty : filling.payload = []) :
    Described options first (batches ++ filling.batches) sent packets
      { filling.sender with pollout := false } := by
  refine ⟨described.packetised.nothing ready tracked.filled empty,
    described.describes_later filling.batches, ?_, tracked.unread, tracked.valid⟩
  have started := tracked.started
  rw [empty] at started
  simpa using started

theorem Described.packed (described : Described options first batches sent packets sender)
    (ready : sender.writeSize = 0)
    (tracked : Tracked options batches (payloads packets) sender filling) :
    Described options first (batches ++ filling.batches) sent
      (packets ++ [⟨filling.offset, filling.payload⟩]) (packed filling) := by
  have later := described.describes_later filling.batches
  refine ⟨described.packetised.packed ready tracked.filled, ?_, ?_, tracked.unread, tracked.valid⟩
  · intro front packet back split
    rcases List.eq_nil_or_concat back with rfl | ⟨inner, final, rfl⟩
    · obtain ⟨rfl, same⟩ := List.append_inj' split rfl
      obtain rfl := List.head_eq_of_cons_eq same
      exact tracked.describes
    · rw [List.concat_eq_append, ← List.cons_append, ← List.append_assoc] at split
      obtain ⟨rfl, _⟩ := List.append_inj' split rfl
      exact later front packet inner rfl
  · rw [payloads_concat, List.length_append]
    exact tracked.started

/-- A call of `OutEvent` returns, and the packets describe themselves. -/
theorem Described.outEvent (bytes : FlushesBytes options)
    (described : Described options first batches sent packets sender) (status : SendStatus) :
    ∃ seen next packets', sender.outEvent options (room options + 1) status = some (seen, next) ∧
      Described options first (batches ++ seen.batches) (sent ++ seen.packet.toList) packets'
        next := by
  rw [PGMSender.outEvent]
  split
  · rename_i ready
    have start := Tracked.start described.packetised.stream described.packetised.cursor
      described.started described.unread described.valid
    have enough : room options - (PGMSender.start options sender).payload.length <
        room options + 1 := Nat.lt_succ_of_le (Nat.sub_le _ _)
    obtain ⟨filling, ran, tracked⟩ := start.ends bytes enough
    rw [ran, Option.bind_eq_bind, Option.bind_some]
    split
    · rename_i empty
      refine ⟨_, _, packets, rfl, ?_⟩
      rw [show (none : Option (List UInt8)).toList = [] from rfl, List.append_nil]
      exact described.nothing ready tracked empty
    · refine ⟨⟨filling.batches, (PGMSender.send (PGMSender.packed filling) status).1⟩,
        (PGMSender.send (PGMSender.packed filling) status).2,
        packets ++ [⟨filling.offset, filling.payload⟩], rfl, ?_⟩
      exact (described.packed ready tracked).send (writeSize_packed filling) status
  · rename_i waiting
    refine ⟨⟨[], (PGMSender.send sender status).1⟩, (PGMSender.send sender status).2, packets,
      rfl, ?_⟩
    rw [List.append_nil]
    exact described.send waiting status

/-! ## Runs -/

/-- A call of `OutEvent`, what is in the pipe by then, and what `Send` comes to. -/
structure Call (π : Type) where
  /-- What comes before `OutEvent`. -/
  event : SenderEvent
  /-- `io_pipe_` -/
  ioPipe : π
  /-- What `Send` comes to, if it is called. -/
  status : SendStatus

/-- A sender as constructed, and plugged in. -/
def init (serializer : σ) (ioPipe : π) : PGMSender σ π where
  serializer := serializer
  ioPipe := ioPipe
  nextIndex := 0
  outBuffer := []
  writeSize := 0
  current := none
  currentOffset := 0
  hasTxTimer := false
  pollout := true
  totalSent := 0

/-- Successive calls, with what is seen of each. -/
def calls (options : SenderOptions σ π) :
    List (Call π) → PGMSender σ π → Option (List Sent × PGMSender σ π)
  | [], sender => some ([], sender)
  | call :: later, sender => do
      let sender := raised { sender with ioPipe := call.ioPipe } call.event
      let (seen, sender) ← sender.outEvent options (room options + 1) call.status
      let (rest, sender) ← calls options later sender
      return (seen :: rest, sender)

/-- The batches that `Flush` gave, in order. -/
def batchesOf (seen : List Sent) : List (List UInt8) := seen.flatMap Sent.batches

/-- The packets that were sent, in order. -/
def sentOf (seen : List Sent) : List (List UInt8) := seen.filterMap Sent.packet

theorem Described.raised (described : Described options first batches sent packets sender)
    (ioPipe : π) (event : SenderEvent) :
    Described options first batches sent packets
      (PGMSender.raised { sender with ioPipe := ioPipe } event) := by
  obtain ⟨⟨encoded, stream, marks, nextIndex, cursor⟩, describes, started, unread, valid⟩ :=
    described
  cases event <;>
    exact ⟨⟨encoded, stream, marks, nextIndex, cursor⟩, describes, started, unread, valid⟩

theorem Described.init (options : SenderOptions σ π) (serializer : σ) (ioPipe : π) :
    Described options 0 [] [] [] (PGMSender.init serializer ioPipe) where
  packetised := ⟨rfl, rfl, fun front packet back split => absurd split (by simp), rfl,
    fun _ => rfl⟩
  describes front packet back split := absurd split (by simp)
  started place starts := absurd starts (not_starts_nil place)
  unread batch current := absurd current (by simp [PGMSender.init])
  valid buffer _ batch current := absurd current (by simp [PGMSender.init])

theorem Described.calls (bytes : FlushesBytes options)
    (described : Described options first batches sent packets sender) (later : List (Call π)) :
    ∃ seen final packets', PGMSender.calls options later sender = some (seen, final) ∧
      Described options first (batches ++ batchesOf seen) (sent ++ sentOf seen) packets' final := by
  induction later generalizing batches sent packets sender with
  | nil => exact ⟨[], sender, packets, rfl, by simpa [batchesOf, sentOf] using described⟩
  | cons call later ih =>
      obtain ⟨seen, next, packets', done, described'⟩ :=
        (described.raised call.ioPipe call.event).outEvent bytes call.status
      obtain ⟨rest, final, packets'', ran, described''⟩ := ih described'
      refine ⟨seen :: rest, final, packets'', ?_, ?_⟩
      · rw [PGMSender.calls, done, Option.bind_eq_bind, Option.bind_some]
        dsimp only
        rw [ran]
        rfl
      · have batches_eq : batchesOf (seen :: rest) = seen.batches ++ batchesOf rest := rfl
        have sent_eq : sentOf (seen :: rest) = seen.packet.toList ++ sentOf rest := by
          cases packet : seen.packet <;> simp [sentOf, packet]
        rw [batches_eq, sent_eq, ← List.append_assoc, ← List.append_assoc]
        exact described''

/-- The packets that were sent are the first ones. -/
theorem Packetised.exists_sent (packetised : Packetised first batches sent packets sender) :
    ∃ gone waiting, packets = gone ++ waiting ∧ sent = datagrams first gone := by
  have encoded := packetised.encoded
  rw [pending] at encoded
  split at encoded
  · exact ⟨packets, [], (List.append_nil _).symm, by simpa using encoded⟩
  · rcases List.eq_nil_or_concat packets with rfl | ⟨gone, last, rfl⟩
    · exact absurd encoded (by simp [datagrams])
    · rw [List.concat_eq_append] at encoded ⊢
      rw [datagrams_concat] at encoded
      exact ⟨gone, [last], rfl, (List.append_inj' encoded rfl).1⟩

/-- In every run of a sender the packets sent carry the bytes of the batches, none missing, under
consecutive indices; each says where the first batch starts in it; and a batch that is held is still
in the serialiser's buffer. -/
theorem lossless_and_self_describing (bytes : FlushesBytes options) (serializer : σ) (ioPipe : π)
    (later : List (Call π)) :
    ∃ seen final packets, calls options later (init serializer ioPipe) = some (seen, final) ∧
      sentOf seen = datagrams 0 packets ∧
      payloads packets <+: (batchesOf seen).flatten ∧
      (∀ front packet back, packets = front ++ packet :: back →
        Describes (batchesOf seen) (payloads front).length packet.word packet.payload) ∧
      Valid options final := by
  obtain ⟨seen, final, packets, ran, described⟩ :=
    (Described.init options serializer ioPipe).calls bytes later
  simp only [List.nil_append] at described
  obtain ⟨gone, waiting, rfl, sent_eq⟩ := described.packetised.exists_sent
  refine ⟨seen, final, gone, ran, sent_eq, ?_, ?_, described.valid⟩
  · rw [← described.packetised.stream, payloads, payloads, List.map_append, List.flatten_append,
      List.append_assoc]
    exact List.prefix_append _ _
  · intro front packet back split
    exact described.describes front packet (back ++ waiting) (by rw [split]; simp)

/-- A serialiser that puts a zero behind each message, and keeps the last batch in its buffer; and a
pipe with a list of messages. -/
def zeroSender : SenderOptions (List UInt8 × List UInt8) (List (List UInt8)) where
  outBufferSize := 9
  headerSize_le := by decide
  outBufferSize_le := by decide
  compressLevel := 0
  serialize := fun state msg => (state.1 ++ msg ++ [0], [])
  onIncrement := none
  flush := fun state => (state.1, ([], state.1))
  read
    | [] => (none, [])
    | msg :: rest => (some msg, rest)

/-- A batch that fills a packet and begins the next one, and another that has to wait. -/
theorem lossless_of_two_batches :
    ∃ seen final packets, calls zeroSender
        [⟨.outEvent, [[1, 2], [3]], .normal⟩, ⟨.txTimer, [[4]], .rateLimited⟩]
        (init ([], []) []) = some (seen, final) ∧
      sentOf seen = datagrams 0 packets ∧
      payloads packets <+: (batchesOf seen).flatten ∧
      (∀ front packet back, packets = front ++ packet :: back →
        Describes (batchesOf seen) (payloads front).length packet.word packet.payload) ∧
      Valid zeroSender final := by
  refine lossless_and_self_describing (fun state msg => ?_) _ _ _
  exact List.append_ne_nil_of_right_ne_nil _ (List.cons_ne_nil 0 [])

end PGMSender

end FlashForwarder
