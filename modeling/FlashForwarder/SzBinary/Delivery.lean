import FlashForwarder.Library.Excerpts
import FlashForwarder.SzBinary.Framing

/-!
# What reaches the handler

The input is arbitrary bytes, cut anywhere.  A length field below 2 ^ 31 is kept as it is, and the
decoder then collects a contiguous piece of the stream.  A larger one turns negative: the decoder
may then step back and read outside the chunk, but it ends with a checksum that cannot be right.  A
chunk of 2 ^ 31 bytes or more can leave the loop with nothing to read for ever.
-/

namespace FlashForwarder

open ProgramLoop

/-- `BodyLength`: the big-endian number in bytes 4 to 7. -/
def bodyLength (buffer : List UInt8) : Nat := (getUint32 (buffer.drop 4)).toNat

/-- A buffer that is a whole frame with a right checksum. -/
structure GenuineFrame (buffer : List UInt8) : Prop where
  /-- Header and tail enclose exactly the bytes that `BodyLength` counts. -/
  length : buffer.length = 12 + bodyLength buffer
  /-- `BodyLength` is not negative as an `int`. -/
  short : bodyLength buffer < 2 ^ 31
  /-- The last four bytes hold the sum of all the others mod 256. -/
  checksum : (getUint32 (buffer.drop (buffer.length - 4))).toNat =
    ((buffer.take (buffer.length - 4)).map UInt8.toNat).sum % 256

/-- The length that goes to the handler with a buffer: `decodeBuffer_.size()` as an `int`. -/
def handlerLength (buffer : List UInt8) : Int := toInt32 buffer.length

theorem generateCheckSum_toNat (buffer : List UInt8) :
    (generateCheckSum buffer).toNat = (buffer.map UInt8.toNat).sum % 256 := by
  have folded : ∀ (bytes : List UInt8) (start : UInt32),
      (bytes.foldl (fun checkSum byte => checkSum + byte.toUInt32) start).toNat =
        (start.toNat + (bytes.map UInt8.toNat).sum) % 2 ^ 32 := by
    intro bytes
    induction bytes with
    | nil =>
        intro start
        simp
    | cons byte bytes ih =>
        intro start
        rw [List.foldl_cons, ih, List.map_cons, List.sum_cons]
        simp [Nat.add_assoc]
  rw [generateCheckSum, UInt32.toNat_mod, folded]
  have small : (256 : UInt32).toNat = 256 := rfl
  have zero : (0 : UInt32).toNat = 0 := rfl
  rw [small, zero]
  omega

theorem bodyLength_append {header : List UInt8} (more : List UInt8) (whole : 8 ≤ header.length) :
    bodyLength (header ++ more) = bodyLength header := by
  obtain ⟨a, b, c, d, e, f, g, h, rest, rfl⟩ :
      ∃ a b c d e f g h rest, header = a :: b :: c :: d :: e :: f :: g :: h :: rest := by
    match header, whole with
    | a :: b :: c :: d :: e :: f :: g :: h :: rest, _ => exact ⟨a, b, c, d, e, f, g, h, rest, rfl⟩
  simp [bodyLength, getUint32]

theorem bodyLength_lt (buffer : List UInt8) : bodyLength buffer < 4294967296 :=
  (getUint32 _).toNat_lt

theorem getUint32_bytes (buffer : List UInt8) :
    (getUint32 buffer).toNat =
      (buffer.getD 0 0).toNat * 2 ^ 24 + ((buffer.getD 1 0).toNat * 2 ^ 16 +
        ((buffer.getD 2 0).toNat * 2 ^ 8 + (buffer.getD 3 0).toNat)) :=
  getUint32_toNat (buffer.getD 0 0) (buffer.getD 1 0) (buffer.getD 2 0) (buffer.getD 3 0) []

namespace SzBinaryDecoder

/-! ## Lengths that are kept and lengths that turn negative -/

/-- How many bytes the buffer holds when the current state is done. -/
def goal (decoder : SzBinaryDecoder) : Nat :=
  match decoder.state with
  | .head => 8
  | .body => 8 + bodyLength decoder.decodeBuffer
  | .tail => 12 + bodyLength decoder.decodeBuffer

/-- The decoder is on its way to a length it has read right. -/
def Honest (decoder : SzBinaryDecoder) : Prop :=
  decoder.decodeBuffer.length ≤ decoder.goal ∧
    match decoder.state with
    | .head => decoder.decodeBuffer.length < 8
    | .body => 8 ≤ decoder.decodeBuffer.length ∧ bodyLength decoder.decodeBuffer < 2147483648 ∧
        decoder.bodySize = bodyLength decoder.decodeBuffer
    | .tail => 8 + bodyLength decoder.decodeBuffer ≤ decoder.decodeBuffer.length ∧
        decoder.decodeBuffer.length < decoder.goal ∧
        bodyLength decoder.decodeBuffer < 2147483648 ∧
        decoder.bodySize = bodyLength decoder.decodeBuffer

/-- The decoder has taken the length for a negative one. -/
def Doomed (decoder : SzBinaryDecoder) : Prop :=
  decoder.state ≠ .head ∧ 8 ≤ decoder.decodeBuffer.length ∧
    2147483648 ≤ bodyLength decoder.decodeBuffer ∧
    decoder.bodySize = bodyLength decoder.decodeBuffer - 4294967296 ∧
    (decoder.decodeBuffer.length = 8 ∨
      decoder.state = .tail ∧ decoder.decodeBuffer.length ≤ decoder.bodySize + 12)

/-- `headLack`, `bodyLack` or `tailLack`. -/
def lack (decoder : SzBinaryDecoder) : Int :=
  match decoder.state with
  | .head => toInt32 (headSize - decoder.decodeBuffer.length)
  | .body => toInt32 (decoder.bodySize - decoder.decodeBuffer.length + headSize)
  | .tail => toInt32 (decoder.bodySize + headSize + tailSize - decoder.decodeBuffer.length)

theorem honest_fresh : Honest fresh := by
  simp [Honest, goal, fresh]

theorem Honest.lack_eq {decoder : SzBinaryDecoder} (honest : Honest decoder) :
    decoder.lack = (decoder.goal - decoder.decodeBuffer.length : Nat) := by
  obtain ⟨within, here⟩ := honest
  cases state : decoder.state <;> simp only [state, goal] at within here <;>
    simp only [lack, goal, state, headSize, tailSize] <;> rw [toInt32_of_range] <;> omega

theorem Doomed.lack_eq {decoder : SzBinaryDecoder} (doomed : Doomed decoder) :
    decoder.lack = decoder.bodySize + (if decoder.state = .body then 8 else 12) -
      decoder.decodeBuffer.length := by
  obtain ⟨notHead, header, long, size, bounded⟩ := doomed
  have := bodyLength_lt decoder.decodeBuffer
  cases state : decoder.state with
  | head => exact absurd state notHead
  | body =>
      simp only [state, reduceCtorEq, false_and, or_false] at bounded
      simp only [lack, state, headSize, if_true]
      rw [toInt32_of_range] <;> omega
  | tail =>
      simp only [state, true_and] at bounded
      simp only [lack, state, headSize, tailSize, reduceCtorEq, if_false]
      rw [toInt32_of_range] <;> omega

/-! ## One pass -/

section Consume

variable {decoder : SzBinaryDecoder} {begin_ end_ : Int} (memory : Memory) (consumed : Int)

/-- A pass that does not reach the end of its state takes what there is. -/
theorem consume_short (short : ¬decoder.lack ≤ toInt32 (end_ - begin_)) :
    decoder.consume memory begin_ end_ consumed =
      ⟨0, { decoder with
        decodeBuffer := decoder.pushBytes memory begin_ (toInt32 (end_ - begin_)) },
        toInt32 (end_ - begin_), []⟩ := by
  cases state : decoder.state <;> simp only [lack, state] at short <;>
    simp only [consume, state, short, if_false]

theorem consume_to_body (state : decoder.state = .head)
    (reach : decoder.lack ≤ toInt32 (end_ - begin_)) :
    decoder.consume memory begin_ end_ consumed =
      ⟨0, ⟨.body, decoder.pushBytes memory begin_ decoder.lack,
        toInt32 (bodyLength (decoder.pushBytes memory begin_ decoder.lack))⟩,
        decoder.lack, []⟩ := by
  simp only [lack, state] at reach ⊢
  simp only [consume, state, reach, if_true, bodyLength]

theorem consume_to_tail (state : decoder.state = .body)
    (reach : decoder.lack ≤ toInt32 (end_ - begin_)) :
    decoder.consume memory begin_ end_ consumed =
      ⟨0, ⟨.tail, decoder.pushBytes memory begin_ decoder.lack, decoder.bodySize⟩,
        decoder.lack, []⟩ := by
  simp only [lack, state] at reach ⊢
  simp only [consume, state, reach, if_true]

/-- The checksum of a buffer is the one in its last four bytes. -/
def SumsUp (buffer : List UInt8) : Prop :=
  getUint32 (buffer.drop (buffer.length - 4)) =
    generateCheckSum (buffer.take (buffer.length - 4))

instance (buffer : List UInt8) : Decidable (SumsUp buffer) :=
  inferInstanceAs (Decidable (_ = _))

theorem consume_checks (state : decoder.state = .tail)
    (reach : decoder.lack ≤ toInt32 (end_ - begin_)) :
    decoder.consume memory begin_ end_ consumed =
      if SumsUp (decoder.pushBytes memory begin_ decoder.lack) then
        ⟨0, fresh, decoder.lack, [decoder.pushBytes memory begin_ decoder.lack]⟩
      else ⟨-1, fresh, consumed, []⟩ := by
  by_cases sumsUp : SumsUp (decoder.pushBytes memory begin_ decoder.lack)
  · rw [if_pos sumsUp]
    simp only [lack, state] at reach sumsUp ⊢
    simp only [consume, state, reach, if_true, reset_eq_fresh]
    exact if_neg fun unequal => unequal sumsUp
  · rw [if_neg sumsUp]
    simp only [lack, state] at reach sumsUp ⊢
    simp only [consume, state, reach, if_true, reset_eq_fresh]
    exact if_pos sumsUp

end Consume

theorem toInt32_le {value : Int} (positive : 0 < value) : toInt32 value ≤ value := by
  rw [toInt32, Int.bmod_def]
  split <;> omega

/-- After a move by what is to be read, nothing is. -/
theorem toInt32_after (begin_ end_ : Int) :
    toInt32 (end_ - (begin_ + toInt32 (end_ - begin_))) = 0 := by
  simp only [toInt32, Int.bmod_def]
  split <;> split <;> omega

/-- An honest decoder that stays within its goal is still honest. -/
theorem Honest.push {decoder : SzBinaryDecoder} (honest : Honest decoder) {more : List UInt8}
    (within : decoder.decodeBuffer.length + more.length < decoder.goal) :
    Honest { decoder with decodeBuffer := decoder.decodeBuffer ++ more } := by
  obtain ⟨-, here⟩ := honest
  cases state : decoder.state with
  | head =>
      simp only [state, goal] at within here
      simp only [Honest, goal, List.length_append]
      omega
  | body =>
      simp only [state, goal] at within here
      have same := bodyLength_append more here.1
      simp only [Honest, goal, List.length_append, same]
      omega
  | tail =>
      simp only [state, goal] at within here
      have same := bodyLength_append more (by omega : 8 ≤ decoder.decodeBuffer.length)
      simp only [Honest, goal, List.length_append, same]
      omega

/-- A complete header sets the decoder on its way to the right length or dooms it. -/
theorem honest_or_doomed_of_header {header : List UInt8} (eight : header.length = 8) :
    Honest ⟨.body, header, toInt32 (bodyLength header)⟩ ∨
      Doomed ⟨.body, header, toInt32 (bodyLength header)⟩ := by
  have bound := bodyLength_lt header
  by_cases short : bodyLength header < 2147483648
  · left
    simp only [Honest, goal, eight, toInt32_natCast short, and_true]
    omega
  · right
    have negative : toInt32 (bodyLength header) = bodyLength header - 4294967296 := by
      rw [toInt32, Int.bmod_def]
      split <;> omega
    simp only [Doomed, negative, eight]
    simp
    omega

theorem genuineFrame_of_sumsUp {buffer : List UInt8}
    (length : buffer.length = 12 + bodyLength buffer)
    (short : bodyLength buffer < 2147483648) (sumsUp : SumsUp buffer) : GenuineFrame buffer where
  length := length
  short := short
  checksum := by
    rw [sumsUp, generateCheckSum_toNat]

/-- A bound on the passes from a position in a chunk on. -/
def passesLeft (chunk : Chunk) (state : DecoderState) (position : Nat) : Nat :=
  3 * (chunk.bytes.length - position) + remainingStates state

/-- What a pass does to an honest decoder inside the chunk: it takes some of the chunk's bytes, it
hands on a genuine frame, it refuses what it has, or it steps back without reading. -/
theorem Honest.consume_cases {decoder : SzBinaryDecoder} {chunk : Chunk} {position : Nat}
    (honest : Honest decoder) (more : position < chunk.bytes.length) (consumed : Int) :
    (∃ next, ∃ count : Nat,
      decoder.consume chunk.memory position chunk.bytes.length consumed = ⟨0, next, count, []⟩ ∧
      position + count ≤ chunk.bytes.length ∧
      next.decodeBuffer = decoder.decodeBuffer ++ (chunk.bytes.drop position).take count ∧
      (Honest next ∨ Doomed next) ∧
      (toInt32 (chunk.bytes.length - position) ≠ 0 →
        passesLeft chunk next.state (position + count) <
          passesLeft chunk decoder.state position)) ∨
    (∃ count : Nat, 0 < count ∧
      decoder.consume chunk.memory position chunk.bytes.length consumed =
        ⟨0, fresh, count, [decoder.decodeBuffer ++ (chunk.bytes.drop position).take count]⟩ ∧
      position + count ≤ chunk.bytes.length ∧
      GenuineFrame (decoder.decodeBuffer ++ (chunk.bytes.drop position).take count)) ∨
    decoder.consume chunk.memory position chunk.bytes.length consumed =
      ⟨-1, fresh, consumed, []⟩ ∨
    toInt32 (chunk.bytes.length - position) < 0 ∧
      decoder.consume chunk.memory position chunk.bytes.length consumed =
        ⟨0, decoder, toInt32 (chunk.bytes.length - position), []⟩ := by
  have inChunk := toInt32_le (by omega : (0 : Int) < chunk.bytes.length - position)
  have pushed : ∀ count : Nat, (count : Int) ≤ toInt32 (chunk.bytes.length - position) →
      decoder.pushBytes chunk.memory position count =
        decoder.decodeBuffer ++ (chunk.bytes.drop position).take count := by
    intro count bound
    rw [pushBytes, Int.toNat_natCast, Chunk.memory, Memory.read_ofBuffer (by omega)]
  have taken : ∀ count : Nat, (count : Int) ≤ toInt32 (chunk.bytes.length - position) →
      ((chunk.bytes.drop position).take count).length = count := by
    intro count bound
    rw [List.length_take, List.length_drop]
    omega
  have within := honest.1
  by_cases reach : decoder.lack ≤ toInt32 (chunk.bytes.length - position)
  · set count := decoder.goal - decoder.decodeBuffer.length with countEq
    have lackEq := honest.lack_eq
    rw [← countEq] at lackEq
    rw [lackEq] at reach
    have bufferEq := pushed count reach
    have countLength := taken count reach
    have here := honest.2
    set buffer := decoder.decodeBuffer ++ (chunk.bytes.drop position).take count with bufferIs
    have bufferLength : buffer.length = decoder.goal := by
      rw [bufferIs, List.length_append, countLength]
      omega
    cases state : decoder.state with
    | head =>
        have step := consume_to_body chunk.memory consumed state (lackEq ▸ reach)
        rw [lackEq, bufferEq] at step
        refine Or.inl ⟨_, count, step, by omega, rfl, honest_or_doomed_of_header ?_, fun _ => ?_⟩
        · simpa only [goal, state] using bufferLength
        · simp only [passesLeft, remainingStates]
          omega
    | body =>
        have step := consume_to_tail chunk.memory consumed state (lackEq ▸ reach)
        rw [lackEq, bufferEq] at step
        refine Or.inl ⟨_, count, step, by omega, rfl, Or.inl ?_, fun _ => ?_⟩
        · simp only [state] at here
          have same : bodyLength buffer = _ := bodyLength_append _ here.1
          simp only [goal, state] at bufferLength
          simp only [Honest, goal, same, bufferLength]
          omega
        · simp only [passesLeft, remainingStates]
          omega
    | tail =>
        have step := consume_checks chunk.memory consumed state (lackEq ▸ reach)
        rw [lackEq, bufferEq] at step
        by_cases sumsUp : SumsUp buffer
        · rw [if_pos sumsUp] at step
          simp only [state] at here
          refine Or.inr (Or.inl ⟨count, by omega, step, by omega,
            genuineFrame_of_sumsUp ?_ ?_ sumsUp⟩)
          · have same : bodyLength buffer = _ := bodyLength_append _ (by omega)
            simp only [goal, state] at bufferLength
            rw [bufferLength, same]
          · have same : bodyLength buffer = _ := bodyLength_append _ (by omega)
            show bodyLength buffer < 2147483648
            omega
        · rw [if_neg sumsUp] at step
          exact Or.inr (Or.inr (Or.inl step))
  · have step := consume_short chunk.memory consumed reach
    by_cases forward : 0 ≤ toInt32 (chunk.bytes.length - position)
    · obtain ⟨count, countEq⟩ := Int.eq_ofNat_of_zero_le forward
      rw [countEq, pushed count (by omega)] at step
      refine Or.inl ⟨_, count, step, by omega, rfl, Or.inl (honest.push ?_), fun some => ?_⟩
      · rw [taken count (by omega)]
        rw [honest.lack_eq] at reach
        omega
      · simp only [passesLeft]
        omega
    · refine Or.inr (Or.inr (Or.inr ⟨by omega, ?_⟩))
      rw [step, pushBytes, Int.toNat_of_nonpos (by omega), Memory.read_zero, List.append_nil]

/-- The last four bytes of a doomed buffer are at least 2 ^ 24. -/
theorem not_sumsUp_of_doomed {buffer : List UInt8} (header : 8 ≤ buffer.length)
    (long : 2147483648 ≤ bodyLength buffer)
    (ends : buffer.length = 8 ∨ (buffer.length : Int) = bodyLength buffer - 4294967296 + 12) :
    ¬SumsUp buffer := by
  intro sumsUp
  have bound := bodyLength_lt buffer
  have small : (getUint32 (buffer.drop (buffer.length - 4))).toNat < 256 := by
    rw [sumsUp, generateCheckSum_toNat]
    exact Nat.mod_lt _ (by decide)
  rw [bodyLength, getUint32_bytes] at long bound ends
  rw [getUint32_bytes] at small
  have byte : ∀ start index, (buffer.drop start).getD index 0 = buffer.getD (start + index) 0 := by
    simp [List.getD_eq_getElem?_getD, List.getElem?_drop]
  simp only [byte, Nat.reduceAdd, Nat.add_zero] at long bound ends small
  have first := (buffer.getD 4 0).toNat_lt
  have second := (buffer.getD 5 0).toNat_lt
  have third := (buffer.getD 6 0).toNat_lt
  have fourth := (buffer.getD 7 0).toNat_lt
  have lengths : buffer.length = 8 ∨ buffer.length = 9 ∨ buffer.length = 10 ∨
      buffer.length = 11 := by omega
  rcases lengths with length | length | length | length <;> rw [length] at small ends <;>
    simp only [Nat.reduceSub, Nat.reduceAdd] at small ends <;> omega

section Doomed

variable {decoder : SzBinaryDecoder} {begin_ end_ : Int} (doomed : Doomed decoder)
  (memory : Memory) (consumed : Int)

include doomed

/-- In the body a doomed decoder lacks nothing, so it moves on, backwards. -/
theorem Doomed.consume_body (state : decoder.state = .body)
    (reach : decoder.lack ≤ toInt32 (end_ - begin_)) :
    decoder.consume memory begin_ end_ consumed =
        ⟨0, { decoder with state := .tail }, decoder.lack, []⟩ ∧
      Doomed { decoder with state := .tail } := by
  have lackEq := doomed.lack_eq
  obtain ⟨-, header, long, size, bounded⟩ := doomed
  have bound := bodyLength_lt decoder.decodeBuffer
  have step := consume_to_tail memory consumed state reach
  simp only [state, reduceCtorEq, false_and, or_false, if_true] at bounded lackEq
  rw [pushBytes, Int.toNat_of_nonpos (by omega), Memory.read_zero, List.append_nil] at step
  exact ⟨step, by simp, header, long, size, Or.inl bounded⟩

/-- In the tail a doomed decoder that has what it lacks refuses it. -/
theorem Doomed.consume_tail (state : decoder.state = .tail)
    (reach : decoder.lack ≤ toInt32 (end_ - begin_)) :
    decoder.consume memory begin_ end_ consumed = ⟨-1, fresh, consumed, []⟩ := by
  have lackEq := doomed.lack_eq
  obtain ⟨-, header, long, size, bounded⟩ := doomed
  have bound := bodyLength_lt decoder.decodeBuffer
  have step := consume_checks memory consumed state reach
  simp only [state, reduceCtorEq, true_and, if_false] at bounded lackEq
  have wrong : ¬SumsUp (decoder.pushBytes memory begin_ decoder.lack) := by
    have same := bodyLength_append (memory.read begin_ decoder.lack.toNat) header
    apply not_sumsUp_of_doomed <;>
      simp only [pushBytes, same, List.length_append, Memory.length_read] <;> omega
  rwa [if_neg wrong] at step

/-- A doomed decoder that does not have what it lacks stays doomed. -/
theorem Doomed.push (short : ¬decoder.lack ≤ toInt32 (end_ - begin_)) :
    Doomed { decoder with
      decodeBuffer := decoder.pushBytes memory begin_ (toInt32 (end_ - begin_)) } := by
  have lackEq := doomed.lack_eq
  obtain ⟨notHead, header, long, size, bounded⟩ := doomed
  have bound := bodyLength_lt decoder.decodeBuffer
  have same := bodyLength_append (memory.read begin_ (toInt32 (end_ - begin_)).toNat) header
  refine ⟨notHead, ?_⟩
  simp only [pushBytes, same, List.length_append, Memory.length_read]
  refine ⟨by omega, long, size, ?_⟩
  cases state : decoder.state with
  | head => exact absurd state notHead
  | body =>
      simp only [state, reduceCtorEq, false_and, or_false, if_true] at bounded lackEq
      left
      omega
  | tail =>
      simp only [state, reduceCtorEq, true_and, if_false] at bounded lackEq ⊢
      omega

/-- A doomed decoder stays doomed or refuses what it has, wherever it reads. -/
theorem Doomed.consume_cases :
    (∃ next moved, decoder.consume memory begin_ end_ consumed = ⟨0, next, moved, []⟩ ∧
      Doomed next) ∨
    decoder.consume memory begin_ end_ consumed = ⟨-1, fresh, consumed, []⟩ := by
  by_cases reach : decoder.lack ≤ toInt32 (end_ - begin_)
  · cases state : decoder.state with
    | head => exact absurd state doomed.1
    | body =>
        obtain ⟨step, doomed⟩ := doomed.consume_body memory consumed state reach
        exact Or.inl ⟨_, _, step, doomed⟩
    | tail => exact Or.inr (doomed.consume_tail memory consumed state reach)
  · exact Or.inl ⟨_, _, consume_short memory consumed reach, doomed.push memory reach⟩

end Doomed

/-- With nothing to read, an honest decoder goes round and takes nothing. -/
theorem Honest.consume_nothing {decoder : SzBinaryDecoder} (honest : Honest decoder)
    {begin_ end_ : Int} (nothing : toInt32 (end_ - begin_) = 0) (memory : Memory)
    (consumed : Int) :
    ∃ next, decoder.consume memory begin_ end_ consumed = ⟨0, next, 0, []⟩ ∧ Honest next := by
  have lackEq := honest.lack_eq
  have within := honest.1
  by_cases reach : decoder.lack ≤ toInt32 (end_ - begin_)
  · have lackZero : decoder.lack = 0 := by omega
    have here := honest.2
    cases state : decoder.state with
    | head =>
        simp only [goal, state] at here lackEq
        omega
    | body =>
        have step := consume_to_tail memory consumed state reach
        rw [lackZero, pushBytes, Int.toNat_zero, Memory.read_zero, List.append_nil] at step
        refine ⟨_, step, ?_⟩
        simp only [goal, state] at here lackEq within
        simp only [Honest, goal]
        omega
    | tail =>
        simp only [state] at here
        omega
  · have step := consume_short memory consumed reach
    rw [nothing, pushBytes, Int.toNat_zero, Memory.read_zero, List.append_nil] at step
    exact ⟨_, step, honest⟩

/-! ## Whole streams -/

/-- Genuine frames, cut out of a stream one behind the other. -/
def Extracted (stream : List UInt8) (pieces : List (List UInt8)) : Prop :=
  Excerpts stream pieces ∧ ∀ piece ∈ pieces, GenuineFrame piece

theorem Extracted.append {stream : List UInt8} {pieces : List (List UInt8)}
    (extracted : Extracted stream pieces) (more : List UInt8) :
    Extracted (stream ++ more) pieces :=
  ⟨extracted.1.append more, extracted.2⟩

theorem Extracted.concat {stream : List UInt8} {pieces : List (List UInt8)}
    (extracted : Extracted stream pieces) {piece : List UInt8} (genuine : GenuineFrame piece) :
    Extracted (stream ++ piece) (pieces ++ [piece]) := by
  refine ⟨extracted.1.concat piece, fun other member => ?_⟩
  rcases List.mem_append.mp member with earlier | last
  · exact extracted.2 other earlier
  · rwa [List.mem_singleton.mp last]

/-- Where a decoder stands after `stream`, with `pieces` handed on: what it has collected is the end
of the stream, or it is doomed. -/
def Settled (stream : List UInt8) (pieces : List (List UInt8)) (decoder : SzBinaryDecoder) :
    Prop :=
  (Honest decoder ∧ ∃ front, stream = front ++ decoder.decodeBuffer ∧ Extracted front pieces) ∨
    Doomed decoder ∧ Extracted stream pieces

theorem Settled.extracted {stream : List UInt8} {pieces : List (List UInt8)}
    {decoder : SzBinaryDecoder} (settled : Settled stream pieces decoder) :
    Extracted stream pieces := by
  rcases settled with ⟨-, front, rfl, extracted⟩ | ⟨-, extracted⟩
  · exact extracted.append _
  · exact extracted

theorem settled_fresh {stream : List UInt8} {pieces : List (List UInt8)}
    (extracted : Extracted stream pieces) : Settled stream pieces fresh :=
  Or.inl ⟨honest_fresh, stream, (List.append_nil stream).symm, extracted⟩

/-- Where the loop of `decode` stands inside a chunk, after the stream `before` and the pieces
`earlier`. -/
inductive Stands (before : List UInt8) (earlier : List (List UInt8)) (chunk : Chunk)
    (cursor : Cursor) : Prop
  /-- What is collected ends at the cursor. -/
  | inStep (position : Nat) (here : cursor.begin_ = position)
      (within : position ≤ chunk.bytes.length) (honest : Honest cursor.decoder)
      (front : List UInt8)
      (collected : before ++ chunk.bytes.take position = front ++ cursor.decoder.decodeBuffer)
      (extracted : Extracted front (earlier ++ cursor.handed))
  /-- The cursor may be anywhere, but nothing comes of it. -/
  | astray (doomed : Doomed cursor.decoder)
      (extracted : Extracted (before ++ chunk.bytes) (earlier ++ cursor.handed))
  /-- The distance to the end is a multiple of 2 ^ 32. -/
  | stuck (honest : Honest cursor.decoder) (more : cursor.begin_ < chunk.bytes.length)
      (nothing : toInt32 (chunk.bytes.length - cursor.begin_) = 0)
      (extracted : Extracted (before ++ chunk.bytes) (earlier ++ cursor.handed))

theorem Stands.extracted {before : List UInt8} {earlier : List (List UInt8)} {chunk : Chunk}
    {cursor : Cursor} (stands : Stands before earlier chunk cursor) :
    Extracted (before ++ chunk.bytes) (earlier ++ cursor.handed) := by
  cases stands with
  | inStep position here within honest front collected extracted =>
      have longer :=
        (extracted.append cursor.decoder.decodeBuffer).append (chunk.bytes.drop position)
      rwa [← collected, List.append_assoc, List.take_append_drop] at longer
  | astray doomed extracted => exact extracted
  | stuck honest more nothing extracted => exact extracted

section Pass

variable {chunk : Chunk} {decoder next : SzBinaryDecoder} {begin_ consumed moved : Int}
  {handed more : List (List UInt8)}

theorem passes_again (before : begin_ < chunk.bytes.length)
    (step : decoder.consume chunk.memory begin_ chunk.bytes.length consumed =
      ⟨0, next, moved, more⟩) :
    passes chunk ⟨decoder, begin_, consumed, handed⟩ =
      .again ⟨next, begin_ + moved, moved, handed ++ more⟩ := by
  simp [decodePass, before, step]

theorem passes_refuse (before : begin_ < chunk.bytes.length)
    (step : decoder.consume chunk.memory begin_ chunk.bytes.length consumed =
      ⟨-1, fresh, consumed, []⟩) :
    passes chunk ⟨decoder, begin_, consumed, handed⟩ = .leave ⟨-1, fresh, handed⟩ := by
  simp [decodePass, before, step]

theorem passes_end (ended : ¬begin_ < chunk.bytes.length) :
    passes chunk ⟨decoder, begin_, consumed, handed⟩ = .leave ⟨0, decoder, handed⟩ := by
  simp [decodePass, ended]

end Pass

/-- What one pass of `decode` leaves of the invariant. -/
theorem Stands.pass {before : List UInt8} {earlier : List (List UInt8)} {chunk : Chunk}
    {cursor : Cursor} (stands : Stands before earlier chunk cursor) :
    (passes chunk cursor).Keeps (Stands before earlier chunk)
      fun result => Settled (before ++ chunk.bytes) (earlier ++ result.handed) result.decoder := by
  have whole := stands.extracted
  obtain ⟨decoder, begin_, consumed, handed⟩ := cursor
  simp only at whole
  cases stands with
  | inStep position here within honest front collected extracted =>
      simp only at here honest collected extracted
      subst here
      rcases Nat.eq_or_lt_of_le within with ended | more
      · rw [passes_end (by omega)]
        rw [ended, List.take_length] at collected
        exact Or.inl ⟨honest, front, collected, extracted⟩
      have before_ : (position : Int) < chunk.bytes.length := by omega
      have further : ∀ count : Nat, before ++ chunk.bytes.take (position + count) =
          front ++ (decoder.decodeBuffer ++ (chunk.bytes.drop position).take count) := by
        intro count
        rw [List.take_add, ← List.append_assoc, collected, List.append_assoc]
      rcases honest.consume_cases more consumed with
        ⟨next, count, step, inChunk, buffer, after, -⟩ | ⟨count, -, step, inChunk, genuine⟩ |
        step | ⟨backwards, step⟩
      · rw [passes_again before_ step, List.append_nil]
        rcases after with honest | doomed
        · exact .inStep (position + count) (by simp) inChunk honest front
            (by rw [further, buffer]) extracted
        · exact .astray doomed whole
      · rw [passes_again before_ step]
        refine .inStep (position + count) (by simp) inChunk honest_fresh
          (before ++ chunk.bytes.take (position + count)) (List.append_nil _).symm ?_
        rw [further, ← List.append_assoc earlier]
        exact extracted.concat genuine
      · rw [passes_refuse before_ step]
        exact settled_fresh whole
      · rw [passes_again before_ step, List.append_nil]
        refine .stuck honest (by simp only; omega) ?_ whole
        simp only
        exact toInt32_after _ _
  | astray doomed _ =>
      simp only at doomed
      by_cases more : begin_ < chunk.bytes.length
      · rcases doomed.consume_cases chunk.memory consumed with
          ⟨next, moved, step, doomed⟩ | step
        · rw [passes_again more step, List.append_nil]
          exact .astray doomed whole
        · rw [passes_refuse more step]
          exact settled_fresh whole
      · rw [passes_end more]
        exact Or.inr ⟨doomed, whole⟩
  | stuck honest more nothing _ =>
      simp only at honest more nothing
      obtain ⟨next, step, honest⟩ := honest.consume_nothing nothing chunk.memory consumed
      rw [passes_again more step, List.append_nil, Int.add_zero]
      exact .stuck honest more nothing whole

/-- A decoder that is settled before a chunk stands at its start. -/
theorem Settled.stands {before : List UInt8} {earlier : List (List UInt8)}
    {decoder : SzBinaryDecoder} (settled : Settled before earlier decoder) (chunk : Chunk) :
    Stands before earlier chunk ⟨decoder, 0, 0, []⟩ := by
  rcases settled with ⟨honest, front, collected, extracted⟩ | ⟨doomed, extracted⟩
  · exact .inStep 0 rfl (Nat.zero_le _) honest front (by simpa using collected)
      (by simpa using extracted)
  · exact .astray doomed (by simpa using extracted.append chunk.bytes)

theorem Feeds.settled {decoder final : SzBinaryDecoder} {chunks : List Chunk} {rets : List Int}
    {handed : List (List UInt8)} (feeds : Feeds decoder chunks rets handed final)
    {before : List UInt8} {earlier : List (List UInt8)}
    (settled : Settled before earlier decoder) :
    Settled (before ++ joined chunks) (earlier ++ handed) final := by
  induction feeds generalizing before earlier with
  | nil decoder => simpa using settled
  | cons decodes _ ih =>
      have kept := decodes.keeps (fun _ stands => stands.pass) (settled.stands _)
      have later := ih kept
      rwa [joined_cons, ← List.append_assoc, ← List.append_assoc]

/-- The buffers handed on at some moment of a run: after some calls that all returned, or in the
course of the call after these, which need not return. -/
inductive HandsOn : List Chunk → List (List UInt8) → Prop
  | between {chunks later : List Chunk} {rets : List Int} {handed : List (List UInt8)}
      {final : SzBinaryDecoder} : Feeds fresh chunks rets handed final →
      HandsOn (chunks ++ later) handed
  | during {earlier later : List Chunk} {chunk : Chunk} {rets : List Int}
      {handed : List (List UInt8)} {decoder : SzBinaryDecoder} {cursor : Cursor} :
      Feeds fresh earlier rets handed decoder →
      Reaches (passes chunk) ⟨decoder, 0, 0, []⟩ cursor →
      HandsOn (earlier ++ chunk :: later) (handed ++ cursor.handed)

/-- Whatever the stream and however it is cut, the buffers handed on are genuine frames that lie in
the stream one behind the other. -/
theorem HandsOn.extracted {chunks : List Chunk} {handed : List (List UInt8)}
    (handsOn : HandsOn chunks handed) : Extracted (joined chunks) handed := by
  have start : Settled [] [] fresh := settled_fresh ⟨Excerpts.nil [], by simp⟩
  cases handsOn with
  | between feeds =>
      have settled := feeds.settled start
      rw [joined_append]
      simpa using settled.extracted.append _
  | during feeds reached =>
      have stands := reached.keeps (fun _ stands => stands.pass)
        ((feeds.settled start).stands _)
      rw [joined_append, joined_cons, ← List.append_assoc]
      exact stands.extracted.append _

/-- The handler learns a frame's length as an `int`, which wraps in the last twelve cases. -/
theorem handlerLength_genuine {buffer : List UInt8} (genuine : GenuineFrame buffer) :
    handlerLength buffer =
      if bodyLength buffer < 2 ^ 31 - 12 then (12 + bodyLength buffer : Int)
      else (12 + bodyLength buffer - 2 ^ 32 : Int) := by
  have short := genuine.short
  have wrap : (2 : Int) ^ 32 = 4294967296 := rfl
  rw [handlerLength, genuine.length, toInt32, Int.bmod_def, wrap]
  by_cases fits : bodyLength buffer < 2 ^ 31 - 12
  · rw [if_pos fits]
    split <;> omega
  · rw [if_neg fits]
    split <;> omega

/-- Only genuine frames reach the handler, each a contiguous piece of the stream, disjoint from the
others and in stream order; the length that goes with one is right as far as an `int` can hold
it. -/
theorem only_genuine_frames {chunks : List Chunk} {handed : List (List UInt8)}
    (handsOn : HandsOn chunks handed) :
    Excerpts (joined chunks) handed ∧
      ∀ buffer ∈ handed, GenuineFrame buffer ∧
        handlerLength buffer =
          if bodyLength buffer < 2 ^ 31 - 12 then (12 + bodyLength buffer : Int)
          else (12 + bodyLength buffer - 2 ^ 32 : Int) := by
  obtain ⟨pieces, genuine⟩ := handsOn.extracted
  exact ⟨pieces, fun buffer member =>
    ⟨genuine buffer member, handlerLength_genuine (genuine buffer member)⟩⟩

/-- A header that lies about its body, then a heartbeat. -/
def strayThenHeartbeat : List Chunk :=
  [⟨[0, 0, 0, 0, 0x80, 0, 0, 0, 1], fun _ => 7⟩, ⟨heartbeatFrame.bytes, fun _ => 9⟩]

theorem strayThenHeartbeat_handsOn : HandsOn strayThenHeartbeat [heartbeatFrame.bytes] := by
  have refused : Decodes fresh ⟨[0, 0, 0, 0, 0x80, 0, 0, 0, 1], fun _ => 7⟩ ⟨-1, fresh, []⟩ :=
    ⟨5, by decide⟩
  have heard : Decodes fresh ⟨heartbeatFrame.bytes, fun _ => 9⟩
      ⟨0, fresh, [heartbeatFrame.bytes]⟩ := ⟨5, by decide⟩
  exact HandsOn.between (Feeds.cons refused (Feeds.cons heard (Feeds.nil fresh)))

theorem only_genuine_frames_stray :
    Excerpts (joined strayThenHeartbeat) [heartbeatFrame.bytes] ∧
      ∀ buffer ∈ [heartbeatFrame.bytes], GenuineFrame buffer ∧
        handlerLength buffer =
          if bodyLength buffer < 2 ^ 31 - 12 then (12 + bodyLength buffer : Int)
          else (12 + bodyLength buffer - 2 ^ 32 : Int) :=
  only_genuine_frames strayThenHeartbeat_handsOn

/-! ## Chunks that are always used up -/

section ShortChunk

variable {chunk : Chunk} {decoder : SzBinaryDecoder}

/-- A doomed decoder in the tail comes to an end, if it lacks nothing or is not led back. -/
theorem Doomed.leaves_tail (doomed : Doomed decoder) (state : decoder.state = .tail)
    {begin_ : Int} (near : decoder.lack ≤ 0 ∨
      toInt32 (chunk.bytes.length - begin_) = chunk.bytes.length - begin_)
    (consumed : Int) (handed : List (List UInt8)) :
    ∃ result, Leaves (passes chunk) ⟨decoder, begin_, consumed, handed⟩ result := by
  by_cases more : begin_ < chunk.bytes.length
  · by_cases reach : decoder.lack ≤ toInt32 (chunk.bytes.length - begin_)
    · have step := doomed.consume_tail chunk.memory consumed state reach
      exact ⟨_, leaves_of_leave (passes_refuse more step)⟩
    have again : passes chunk ⟨decoder, begin_, consumed, handed⟩ = _ :=
      passes_again more (consume_short chunk.memory consumed reach)
    refine Exists.imp (fun _ => leaves_of_again again) ?_
    by_cases last : begin_ + toInt32 (chunk.bytes.length - begin_) < chunk.bytes.length
    · have nothing := toInt32_after begin_ chunk.bytes.length
      rw [pushBytes, Int.toNat_of_nonpos (by omega), Memory.read_zero, List.append_nil]
      have reach : decoder.lack ≤ toInt32
          (chunk.bytes.length - (begin_ + toInt32 (chunk.bytes.length - begin_))) := by
        omega
      have step := doomed.consume_tail chunk.memory (toInt32 (chunk.bytes.length - begin_)) state
        reach
      exact ⟨_, leaves_of_leave (passes_refuse last step)⟩
    · exact ⟨_, leaves_of_leave (passes_end last)⟩
  · exact ⟨_, leaves_of_leave (passes_end more)⟩

/-- A doomed decoder inside a short chunk comes to an end. -/
theorem Doomed.leaves (doomed : Doomed decoder) (small : chunk.bytes.length < 2147483645)
    {position : Nat} (within : position ≤ chunk.bytes.length) (consumed : Int)
    (handed : List (List UInt8)) :
    ∃ result, Leaves (passes chunk) ⟨decoder, position, consumed, handed⟩ result := by
  have toRead := toRead_eq (by omega) within
  cases state : decoder.state with
  | head => exact absurd state doomed.1
  | body =>
      have lackEq := doomed.lack_eq
      obtain ⟨-, -, -, size, bounded⟩ := id doomed
      have bound := bodyLength_lt decoder.decodeBuffer
      simp only [state, reduceCtorEq, false_and, or_false, if_true] at bounded lackEq
      rcases Nat.eq_or_lt_of_le within with ended | more
      · exact ⟨_, leaves_at_end decoder consumed handed ended⟩
      obtain ⟨step, doomed⟩ := doomed.consume_body chunk.memory consumed state
        (by omega : decoder.lack ≤ toInt32 (chunk.bytes.length - position))
      have again : passes chunk ⟨decoder, position, consumed, handed⟩ = _ :=
        passes_again (by omega) step
      refine Exists.imp (fun _ => leaves_of_again again) (doomed.leaves_tail rfl ?_ _ _)
      have tailLack := doomed.lack_eq
      simp only [reduceCtorEq, if_false] at tailLack
      by_cases negative : decoder.bodySize ≤ -4
      · left
        omega
      · right
        rw [toInt32_of_range] <;> omega
  | tail =>
      refine doomed.leaves_tail state (Or.inr ?_) consumed handed
      rw [toRead]
      omega

/-- A decoder inside a short chunk comes to an end. -/
theorem Honest.leaves (honest : Honest decoder) (small : chunk.bytes.length < 2147483645)
    {position : Nat} (within : position ≤ chunk.bytes.length) (consumed : Int)
    (handed : List (List UInt8)) :
    ∃ result, Leaves (passes chunk) ⟨decoder, position, consumed, handed⟩ result := by
  induction left : passesLeft chunk decoder.state position using Nat.strongRecOn
    generalizing decoder position consumed handed with
  | ind bound ih =>
      rcases Nat.eq_or_lt_of_le within with ended | more
      · exact ⟨_, leaves_at_end decoder consumed handed ended⟩
      have toRead := toRead_eq (by omega) within
      have before : (position : Int) < chunk.bytes.length := by omega
      rcases honest.consume_cases more consumed with ⟨next, count, step, inChunk, -, after, fewer⟩ |
        ⟨count, some, step, inChunk, -⟩ | step | ⟨backwards, -⟩
      · have again : passes chunk ⟨decoder, position, consumed, handed⟩ = _ :=
          passes_again before step
        refine Exists.imp (fun _ => leaves_of_again again) ?_
        rcases after with honest | doomed
        · exact ih _ (left ▸ fewer (by omega)) honest inChunk _ _ rfl
        · exact doomed.leaves small inChunk _ _
      · have again : passes chunk ⟨decoder, position, consumed, handed⟩ = _ :=
          passes_again before step
        refine Exists.imp (fun _ => leaves_of_again again) ?_
        refine ih _ ?_ honest_fresh inChunk _ _ rfl
        rw [← left]
        simp only [passesLeft, fresh, remainingStates]
        omega
      · exact ⟨_, leaves_of_leave (passes_refuse before step)⟩
      · omega

end ShortChunk

/-- `decode` returns on every chunk that is short enough, whatever came before it. -/
theorem Settled.exists_decodes {before : List UInt8} {earlier : List (List UInt8)}
    {decoder : SzBinaryDecoder} (settled : Settled before earlier decoder) {chunk : Chunk}
    (small : chunk.bytes.length < 2147483645) : ∃ result, Decodes decoder chunk result := by
  rcases settled with ⟨honest, -⟩ | ⟨doomed, -⟩
  · exact honest.leaves small (Nat.zero_le _) 0 []
  · exact doomed.leaves small (Nat.zero_le _) 0 []

/-! ## A frame of 2 ^ 31 bytes -/

/-- A body that arrives as one chunk is taken in one pass. -/
theorem decodes_body {header bytes : List UInt8} (eight : header.length = 8)
    (more : 0 < bytes.length) (small : bytes.length < 2147483648) (outside : Memory) :
    Decodes ⟨.body, header, bytes.length⟩ ⟨bytes, outside⟩
      ⟨0, ⟨.tail, header ++ bytes, bytes.length⟩, []⟩ := by
  have lackEq : lack ⟨.body, header, bytes.length⟩ = bytes.length := by
    simp only [lack, eight, headSize]
    rw [toInt32_of_range] <;> omega
  have toRead : toInt32 (bytes.length - 0) = bytes.length := by
    rw [toInt32_of_range] <;> omega
  have reach : lack ⟨.body, header, bytes.length⟩ ≤ toInt32 (bytes.length - 0) := by
    rw [lackEq, toRead]
  have step := consume_to_tail (Chunk.memory ⟨bytes, outside⟩) 0 rfl reach
  have read : (Chunk.memory ⟨bytes, outside⟩).read 0 bytes.length = bytes :=
    Memory.holds_ofBuffer bytes outside
  rw [lackEq, pushBytes, Int.toNat_natCast, read] at step
  refine leaves_of_again (passes_again (by simpa using more) step) ?_
  exact leaves_of_leave (passes_end (by simp))

/-- A tail that arrives as one chunk completes the frame if the checksum is right. -/
theorem decodes_tail {buffer bytes : List UInt8} {size : Nat} (four : bytes.length = 4)
    (collected : buffer.length = 8 + size) (sumsUp : SumsUp (buffer ++ bytes))
    (outside : Memory) :
    Decodes ⟨.tail, buffer, size⟩ ⟨bytes, outside⟩ ⟨0, fresh, [buffer ++ bytes]⟩ := by
  have lackEq : lack ⟨.tail, buffer, size⟩ = bytes.length := by
    simp only [lack, collected, four, headSize, tailSize]
    rw [toInt32_of_range] <;> omega
  have toRead : toInt32 (bytes.length - 0) = bytes.length := by
    rw [toInt32_of_range] <;> omega
  have reach : lack ⟨.tail, buffer, size⟩ ≤ toInt32 (bytes.length - 0) := by
    rw [lackEq, toRead]
  have step := consume_checks (Chunk.memory ⟨bytes, outside⟩) 0 rfl reach
  have read : (Chunk.memory ⟨bytes, outside⟩).read 0 bytes.length = bytes :=
    Memory.holds_ofBuffer bytes outside
  rw [lackEq, pushBytes, Int.toNat_natCast, read, if_pos sumsUp] at step
  refine leaves_of_again (passes_again (by simp [four]) step) ?_
  exact leaves_of_leave (passes_end (by simp))

/-- The header of a frame with 2 ^ 31 - 12 bytes in its body. -/
def hugeHeader : List UInt8 := [0, 0, 0, 0, 0x7f, 0xff, 0xff, 0xf4]

/-- The frame's body: zeros. -/
def hugeBody : List UInt8 := List.replicate 2147483636 0

/-- The frame's checksum. -/
def hugeTail : List UInt8 := [0, 0, 0, 113]

theorem length_hugeHeader : hugeHeader.length = 8 := rfl

theorem length_hugeBody : hugeBody.length = 2147483636 := by
  rw [hugeBody, List.length_replicate]

theorem length_hugeTail : hugeTail.length = 4 := rfl

theorem sum_hugeBody : (hugeBody.map UInt8.toNat).sum = 0 := by
  refine List.sum_eq_zero_iff_forall_eq_nat.mpr fun value member => ?_
  obtain ⟨byte, zero, rfl⟩ := List.mem_map.mp member
  rw [List.eq_of_mem_replicate zero, UInt8.toNat_zero]

theorem sumsUp_huge : SumsUp (hugeHeader ++ hugeBody ++ hugeTail) := by
  have cut : (hugeHeader ++ hugeBody ++ hugeTail).length - 4 = (hugeHeader ++ hugeBody).length := by
    rw [List.length_append, length_hugeTail, Nat.add_sub_cancel]
  rw [SumsUp, cut, List.drop_left, List.take_left]
  apply UInt32.toNat_inj.mp
  rw [generateCheckSum_toNat, List.map_append, List.sum_append, sum_hugeBody]
  decide

/-- A frame of 2 ^ 31 bytes is handed on with a negative length. -/
theorem huge_frame_has_negative_length :
    HandsOn [⟨hugeHeader, fun _ => 0⟩, ⟨hugeBody, fun _ => 0⟩, ⟨hugeTail, fun _ => 0⟩]
        [hugeHeader ++ hugeBody ++ hugeTail] ∧
      bodyLength (hugeHeader ++ hugeBody ++ hugeTail) = 2147483636 ∧
      handlerLength (hugeHeader ++ hugeBody ++ hugeTail) = -2147483648 := by
  have header : Decodes fresh ⟨hugeHeader, fun _ => 0⟩
      ⟨0, ⟨.body, hugeHeader, hugeBody.length⟩, []⟩ := by
    rw [length_hugeBody]
    exact ⟨3, by decide⟩
  have body := decodes_body length_hugeHeader
    (by rw [length_hugeBody]; decide) (by rw [length_hugeBody]; decide) fun _ => 0
  have collected : (hugeHeader ++ hugeBody).length = 8 + hugeBody.length := by
    rw [List.length_append, length_hugeHeader]
  have tail := decodes_tail length_hugeTail collected sumsUp_huge fun _ => 0
  refine ⟨?_, ?_, ?_⟩
  · exact HandsOn.between
      (Feeds.cons header (Feeds.cons body (Feeds.cons tail (Feeds.nil fresh))))
  · rw [List.append_assoc, bodyLength_append _ (by decide)]
    decide
  · rw [handlerLength, List.length_append, List.length_append, length_hugeHeader,
      length_hugeBody, length_hugeTail, toInt32, Int.bmod_def]
    split <;> omega

end SzBinaryDecoder

end FlashForwarder
