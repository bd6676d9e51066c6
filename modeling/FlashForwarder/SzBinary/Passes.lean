import FlashForwarder.SzBinary.Frame
import Mathlib.Data.List.Infix

/-!
# Passes inside one frame

What each state of the decoder does with a chunk that agrees with the frame it is in, and where
the loop stands when the chunk, or the frame, is used up.
-/

namespace FlashForwarder

open ProgramLoop

namespace SzBinaryDecoder

/-! ## One pass inside a frame -/

/-- From `position` on, the chunk and what `frame` still lacks are prefixes of one another. -/
def Agrees (frame : Frame) (taken : Nat) (chunk : Chunk) (position : Nat) : Prop :=
  frame.bytes.drop taken <+: chunk.bytes.drop position ∨
    chunk.bytes.drop position <+: frame.bytes.drop taken

/-- Bytes read while the decoder is inside a frame are that frame's next bytes. -/
theorem pushBytes_inside {frame : Frame} {taken position count : Nat} {chunk : Chunk}
    {decoder : SzBinaryDecoder} (inside : Inside frame taken decoder)
    (agrees : Agrees frame taken chunk position)
    (inFrame : taken + count ≤ frame.bytes.length)
    (inChunk : position + count ≤ chunk.bytes.length) :
    decoder.pushBytes chunk.memory position count = frame.bytes.take (taken + count) := by
  have same : (chunk.bytes.drop position).take count = (frame.bytes.drop taken).take count := by
    rcases agrees with ⟨more, equality⟩ | ⟨missing, equality⟩ <;>
      rw [← equality, List.take_append_of_le_length] <;>
      rw [List.length_drop] <;>
      omega
  rw [pushBytes, inside.1, Int.toNat_natCast, Chunk.memory, Memory.read_ofBuffer inChunk, same,
    List.take_add]

/-- Where the current state of a decoder ends in a frame. -/
def milestone (frame : Frame) : DecoderState → Nat
  | .head => 8
  | .body => 8 + frame.body.length
  | .tail => 12 + frame.body.length

theorem Inside.le_milestone {frame : Frame} {taken : Nat} {decoder : SzBinaryDecoder}
    (inside : Inside frame taken decoder) : taken ≤ milestone frame decoder.state := by
  obtain ⟨-, position⟩ := inside
  have total := frame.length_bytes
  cases state : decoder.state <;> simp only [state] at position <;> simp only [milestone] <;> omega

theorem milestone_le (frame : Frame) (state : DecoderState) :
    milestone frame state ≤ frame.bytes.length := by
  have total := frame.length_bytes
  cases state <;> simp only [milestone] <;> omega

theorem Inside.length_buffer {frame : Frame} {taken : Nat} {decoder : SzBinaryDecoder}
    (inside : Inside frame taken decoder) : decoder.decodeBuffer.length = taken := by
  have := inside.le_milestone
  have := milestone_le frame decoder.state
  rw [inside.1, List.length_take]
  omega

theorem toRead_eq {chunk : Chunk} {position : Nat} (small : chunk.bytes.length < 2147483648)
    (within : position ≤ chunk.bytes.length) :
    toInt32 (chunk.bytes.length - position) = (chunk.bytes.length - position : Nat) := by
  rw [toInt32_of_range] <;> omega

section Pass

variable {frame : Frame} {taken position : Nat} {chunk : Chunk} {decoder : SzBinaryDecoder}
  {consumed : Int}

theorem headLack_eq (inside : Inside frame taken decoder) (state : decoder.state = .head) :
    toInt32 (headSize - decoder.decodeBuffer.length) = (8 - taken : Nat) := by
  have lengthEq := inside.length_buffer
  have within := inside.2
  simp only [state] at within
  rw [toInt32_of_range] <;> simp only [headSize, lengthEq] <;> omega

theorem bodyLack_eq (inside : Inside frame taken decoder) (state : decoder.state = .body) :
    toInt32 (decoder.bodySize - decoder.decodeBuffer.length + headSize) =
      (8 + frame.body.length - taken : Nat) := by
  have small := frame.short
  have lengthEq := inside.length_buffer
  have within := inside.2
  simp only [state] at within
  rw [toInt32_of_range] <;> simp only [headSize, lengthEq, within.2.2] <;> omega

theorem tailLack_eq (inside : Inside frame taken decoder) (state : decoder.state = .tail) :
    toInt32 (decoder.bodySize + headSize + tailSize - decoder.decodeBuffer.length) =
      (frame.bytes.length - taken : Nat) := by
  have total := frame.length_bytes
  have small := frame.short
  have lengthEq := inside.length_buffer
  have within := inside.2
  simp only [state] at within
  rw [toInt32_of_range] <;> simp only [headSize, tailSize, lengthEq, within.2.2] <;> omega

/-- A chunk that ends before the current state does is taken whole. -/
theorem consume_wait (inside : Inside frame taken decoder)
    (agrees : Agrees frame taken chunk position) (small : chunk.bytes.length < 2147483648)
    (within : position ≤ chunk.bytes.length)
    (wait : chunk.bytes.length - position < milestone frame decoder.state - taken) :
    decoder.consume chunk.memory position chunk.bytes.length consumed =
      { ret := 0
        decoder :=
          { decoder with
            decodeBuffer := frame.bytes.take (taken + (chunk.bytes.length - position)) }
        consumed := (chunk.bytes.length - position : Nat)
        handed := [] } := by
  have bound := milestone_le frame decoder.state
  have toRead := toRead_eq small within
  have pushed : decoder.pushBytes chunk.memory position
      (chunk.bytes.length - position : Nat) = _ :=
    pushBytes_inside inside agrees (by omega) (by omega)
  cases state : decoder.state with
  | head =>
      simp only [state, milestone] at wait
      have short : ¬((8 - taken : Nat) : Int) ≤ (chunk.bytes.length - position : Nat) := by omega
      simp only [consume, state, toRead, headLack_eq inside state, short, if_false, pushed]
  | body =>
      simp only [state, milestone] at wait
      have short : ¬((8 + frame.body.length - taken : Nat) : Int) ≤
          (chunk.bytes.length - position : Nat) := by omega
      simp only [consume, state, toRead, bodyLack_eq inside state, short, if_false, pushed]
  | tail =>
      simp only [state, milestone] at wait
      have total := frame.length_bytes
      have short : ¬((frame.bytes.length - taken : Nat) : Int) ≤
          (chunk.bytes.length - position : Nat) := by omega
      simp only [consume, state, toRead, tailLack_eq inside state, short, if_false, pushed]

/-- A decoder in the header that reaches its end moves on to the body. -/
theorem consume_head (inside : Inside frame taken decoder) (state : decoder.state = .head)
    (agrees : Agrees frame taken chunk position) (small : chunk.bytes.length < 2147483648)
    (reach : position + (8 - taken) ≤ chunk.bytes.length) :
    decoder.consume chunk.memory position chunk.bytes.length consumed =
      { ret := 0
        decoder := ⟨.body, frame.bytes.take 8, frame.body.length⟩
        consumed := (8 - taken : Nat)
        handed := [] } := by
  have total := frame.length_bytes
  have frameSmall := frame.length_lt
  have within := inside.2
  simp only [state] at within
  have toRead := toRead_eq small (by omega : position ≤ chunk.bytes.length)
  have enough : ((8 - taken : Nat) : Int) ≤ (chunk.bytes.length - position : Nat) := by omega
  have pushed := pushBytes_inside inside agrees (by omega) reach
  rw [show taken + (8 - taken) = 8 by omega] at pushed
  have size := frame.bodyLength_of_take (Nat.le_refl 8)
  have sizeInt : toInt32 (frame.body.length : Int) = frame.body.length :=
    toInt32_natCast (by omega)
  simp only [consume, state, toRead, headLack_eq inside state, enough,
    if_true, pushed, size, sizeInt]

/-- A decoder in the body that reaches its end moves on to the tail, even over no byte. -/
theorem consume_body (inside : Inside frame taken decoder) (state : decoder.state = .body)
    (agrees : Agrees frame taken chunk position) (small : chunk.bytes.length < 2147483648)
    (reach : position + (8 + frame.body.length - taken) ≤ chunk.bytes.length) :
    decoder.consume chunk.memory position chunk.bytes.length consumed =
      { ret := 0
        decoder := ⟨.tail, frame.bytes.take (8 + frame.body.length), frame.body.length⟩
        consumed := (8 + frame.body.length - taken : Nat)
        handed := [] } := by
  have total := frame.length_bytes
  have within := inside.2
  simp only [state] at within
  have toRead := toRead_eq small (by omega : position ≤ chunk.bytes.length)
  have enough : ((8 + frame.body.length - taken : Nat) : Int) ≤
      (chunk.bytes.length - position : Nat) := by omega
  have pushed := pushBytes_inside inside agrees (by omega) reach
  rw [show taken + (8 + frame.body.length - taken) = 8 + frame.body.length by omega] at pushed
  simp only [consume, state, toRead, bodyLack_eq inside state, enough,
    if_true, pushed]
  rw [within.2.2]

/-- A decoder in the tail that reaches the frame's end answers for its checksum. -/
theorem consume_tail (consumed : Int) (inside : Inside frame taken decoder)
    (state : decoder.state = .tail)
    (agrees : Agrees frame taken chunk position) (small : chunk.bytes.length < 2147483648)
    (reach : position + (frame.bytes.length - taken) ≤ chunk.bytes.length) :
    decoder.consume chunk.memory position chunk.bytes.length consumed =
      if frame.Genuine then
        { ret := 0
          decoder := fresh
          consumed := (frame.bytes.length - taken : Nat)
          handed := [frame.bytes] }
      else
        { ret := -1, decoder := fresh, consumed, handed := [] } := by
  have total := frame.length_bytes
  have within := inside.2
  simp only [state] at within
  have toRead := toRead_eq small (by omega : position ≤ chunk.bytes.length)
  have enough : ((frame.bytes.length - taken : Nat) : Int) ≤
      (chunk.bytes.length - position : Nat) := by omega
  have pushed := pushBytes_inside inside agrees
    (by omega) reach
  rw [show taken + (frame.bytes.length - taken) = frame.bytes.length by omega,
    List.take_length] at pushed
  have covered : frame.bytes.take (frame.bytes.length - 4) = frame.covered := by
    rw [total, Frame.bytes]
    exact List.take_left' (by simp; omega)
  have wireSum : getUint32 (frame.bytes.drop (frame.bytes.length - 4)) = frame.checksum := by
    rw [total, Frame.bytes, List.drop_left' (by simp; omega)]
    simpa using getUint32_putUint32 frame.checksum []
  simp only [consume, state, toRead, tailLack_eq inside state, enough,
    if_true, pushed, covered, wireSum, reset_eq_fresh]
  by_cases genuine : frame.Genuine
  · exact (if_neg fun unequal => unequal genuine).trans (if_pos genuine).symm
  · exact (if_pos genuine).trans (if_neg genuine).symm

end Pass

/-! ## To the end of the chunk, or of the frame -/

theorem Agrees.advance {frame : Frame} {taken position : Nat} {chunk : Chunk}
    (agrees : Agrees frame taken chunk position) (count : Nat) :
    Agrees frame (taken + count) chunk (position + count) := by
  unfold Agrees
  rw [← List.drop_drop, ← List.drop_drop]
  exact agrees.imp (fun shorter => List.IsPrefix.drop shorter count)
    fun shorter => List.IsPrefix.drop shorter count

section Finish

variable {frame : Frame} {taken position : Nat} {chunk : Chunk} {decoder : SzBinaryDecoder}
  {consumed : Int} {handed : List (List UInt8)} {result : Decoded}

/-- The passes of `decode` over one chunk. -/
abbrev passes (chunk : Chunk) : Cursor → Pass Cursor Decoded :=
  decodePass chunk.memory chunk.bytes.length

theorem leaves_at_end (decoder : SzBinaryDecoder) (consumed : Int)
    (handed : List (List UInt8)) (ended : position = chunk.bytes.length) :
    Leaves (passes chunk) ⟨decoder, position, consumed, handed⟩ ⟨0, decoder, handed⟩ := by
  apply leaves_of_leave
  simp [decodePass, ended]

/-- A pass that hands nothing on only moves the cursor. -/
theorem leaves_of_quiet {next : SzBinaryDecoder} {count : Nat}
    (more : position < chunk.bytes.length)
    (quiet : decoder.consume chunk.memory position chunk.bytes.length consumed =
      ⟨0, next, (count : Nat), []⟩)
    (left : Leaves (passes chunk) ⟨next, (position + count : Nat), (count : Nat), handed⟩ result) :
    Leaves (passes chunk) ⟨decoder, position, consumed, handed⟩ result := by
  refine leaves_of_again ?_ left
  have before : (position : Int) < chunk.bytes.length := by omega
  simp [decodePass, before, quiet]

theorem leaves_wait (inside : Inside frame taken decoder)
    (agrees : Agrees frame taken chunk position) (small : chunk.bytes.length < 2147483648)
    (within : position ≤ chunk.bytes.length)
    (wait : chunk.bytes.length - position < milestone frame decoder.state - taken)
    (rests : position = chunk.bytes.length → decoder = resting (frame.bytes.take taken)) :
    Leaves (passes chunk) ⟨decoder, position, consumed, handed⟩
      ⟨0, resting (frame.bytes.take (taken + (chunk.bytes.length - position))), handed⟩ := by
  rcases Nat.eq_or_lt_of_le within with ended | more
  · have nothing : taken + (chunk.bytes.length - position) = taken := by omega
    rw [nothing, ← rests ended]
    exact leaves_at_end decoder consumed handed ended
  · apply leaves_of_quiet more (consume_wait inside agrees small within wait)
    set next : SzBinaryDecoder :=
      { decoder with decodeBuffer := frame.bytes.take (taken + (chunk.bytes.length - position)) }
    have nextInside : Inside frame (taken + (chunk.bytes.length - position)) next := by
      refine ⟨rfl, ?_⟩
      have where_ := inside.2
      have total := frame.length_bytes
      cases state : decoder.state <;>
        simp only [next, state, milestone] at wait where_ ⊢ <;> omega
    have settled : next = resting (frame.bytes.take (taken + (chunk.bytes.length - position))) := by
      apply nextInside.eq_resting
      · intro state
        have same : decoder.state = .body := state
        simp only [same, milestone] at wait
        omega
      · intro state
        have same : decoder.state = .tail := state
        have where_ := inside.2
        simp only [same] at where_
        omega
    rw [← settled]
    exact leaves_at_end next _ handed (by omega)

/-- How many states lie between this one and the tail. -/
def remainingStates : DecoderState → Nat
  | .head => 2
  | .body => 1
  | .tail => 0

/-- Reaching the end of the header or of the body brings the next state. -/
theorem exists_advance (inside : Inside frame taken decoder) (notTail : decoder.state ≠ .tail)
    (agrees : Agrees frame taken chunk position) (small : chunk.bytes.length < 2147483648)
    (within : position ≤ chunk.bytes.length)
    (reach : milestone frame decoder.state - taken ≤ chunk.bytes.length - position) :
    ∃ next count, decoder.consume chunk.memory position chunk.bytes.length consumed =
        ⟨0, next, (count : Nat), []⟩ ∧
      count ≤ chunk.bytes.length - position ∧ Inside frame (taken + count) next ∧
      remainingStates next.state < remainingStates decoder.state ∧
      (next.state = .body → taken + count = 8) ∧
      (next.state = .tail → taken + count = 8 → count = 0) := by
  have total := frame.length_bytes
  have where_ := inside.2
  cases state : decoder.state with
  | head =>
      simp only [state, milestone] at where_ reach
      have whole : taken + (8 - taken) = 8 := by omega
      refine ⟨_, _, consume_head inside state agrees small (by omega), reach, ?_,
        by simp [remainingStates], ?_, ?_⟩
      · rw [whole]
        exact ⟨rfl, Nat.le_refl 8, by omega, rfl⟩
      · exact fun _ => whole
      · exact fun impossible => nomatch impossible
  | body =>
      simp only [state, milestone] at where_ reach
      have whole : taken + (8 + frame.body.length - taken) = 8 + frame.body.length := by omega
      refine ⟨_, _, consume_body inside state agrees small (by omega), reach, ?_,
        by simp [remainingStates], ?_, ?_⟩
      · rw [whole]
        exact ⟨rfl, Nat.le_refl _, by omega, rfl⟩
      · exact fun impossible => nomatch impossible
      · intro _ atEight
        omega
  | tail => exact absurd state notTail

/-- A chunk that ends inside the frame leaves the decoder resting on what it has. -/
theorem leaves_short (inside : Inside frame taken decoder)
    (agrees : Agrees frame taken chunk position) (small : chunk.bytes.length < 2147483648)
    (within : position ≤ chunk.bytes.length)
    (short : chunk.bytes.length - position < frame.bytes.length - taken)
    (rests : position = chunk.bytes.length → decoder = resting (frame.bytes.take taken)) :
    Leaves (passes chunk) ⟨decoder, position, consumed, handed⟩
      ⟨0, resting (frame.bytes.take (taken + (chunk.bytes.length - position))), handed⟩ := by
  induction rank : remainingStates decoder.state using Nat.strongRecOn
    generalizing decoder taken position consumed with
  | ind rank ih =>
      by_cases wait : chunk.bytes.length - position < milestone frame decoder.state - taken
      · exact leaves_wait inside agrees small within wait rests
      rcases Nat.eq_or_lt_of_le within with ended | more
      · have nothing : taken + (chunk.bytes.length - position) = taken := by omega
        rw [nothing, ← rests ended]
        exact leaves_at_end decoder consumed handed ended
      have total := frame.length_bytes
      have notTail : decoder.state ≠ .tail := by
        intro state
        simp only [state, milestone] at wait
        omega
      obtain ⟨next, count, quiet, bound, nextInside, closer, atBody, atTail⟩ :=
        exists_advance inside notTail agrees small within (by omega)
      apply leaves_of_quiet more quiet
      have sum : taken + count + (chunk.bytes.length - (position + count)) =
          taken + (chunk.bytes.length - position) := by omega
      rw [← sum]
      refine ih _ (rank ▸ closer) nextInside (agrees.advance count) (by omega) (by omega) ?_ rfl
      intro ended
      apply nextInside.eq_resting
      · exact fun state => Or.inr (atBody state)
      · intro state atEight
        have := atTail state atEight
        omega

/-- A chunk that reaches the frame's end hands it on if its checksum is right, and otherwise
returns `-1` with the rest of the chunk unread. -/
theorem leaves_full (inside : Inside frame taken decoder)
    (agrees : Agrees frame taken chunk position) (small : chunk.bytes.length < 2147483648)
    (reach : position + (frame.bytes.length - taken) ≤ chunk.bytes.length)
    (after : if frame.Genuine then
        ∀ consumed, Leaves (passes chunk)
          ⟨fresh, (position + (frame.bytes.length - taken) : Nat), consumed,
            handed ++ [frame.bytes]⟩ result
      else result = ⟨-1, fresh, handed⟩) :
    Leaves (passes chunk) ⟨decoder, position, consumed, handed⟩ result := by
  induction rank : remainingStates decoder.state using Nat.strongRecOn
    generalizing decoder taken position consumed with
  | ind rank ih =>
      have total := frame.length_bytes
      have bound := inside.le_milestone
      have more : position < chunk.bytes.length := by
        have where_ := inside.2
        cases state : decoder.state <;> simp only [state] at where_ <;> omega
      by_cases state : decoder.state = .tail
      · have finish := consume_tail consumed inside state agrees small reach
        have before : (position : Int) < chunk.bytes.length := by omega
        by_cases genuine : frame.Genuine
        · rw [if_pos genuine] at after finish
          refine leaves_of_again ?_ (after (frame.bytes.length - taken : Nat))
          simp [decodePass, before, finish]
        · rw [if_neg genuine] at after finish
          rw [after]
          apply leaves_of_leave
          simp [decodePass, before, finish]
      · have within := milestone_le frame decoder.state
        obtain ⟨next, count, quiet, inChunk, nextInside, closer, -, -⟩ :=
          exists_advance inside state agrees small (by omega) (by omega)
        apply leaves_of_quiet more quiet
        have nextBound := nextInside.le_milestone
        have nextWithin := milestone_le frame next.state
        have sum : position + count + (frame.bytes.length - (taken + count)) =
            position + (frame.bytes.length - taken) := by omega
        refine ih _ (rank ▸ closer) nextInside (agrees.advance count) (by omega) ?_ rfl
        rw [sum]
        exact after

end Finish

end SzBinaryDecoder

end FlashForwarder
