import FlashForwarder.SzBinary.Decoder

/-!
# Frames and the decoder's path through one frame

A frame is held by its parts, so its length field always names its body.  A decoder that has
taken some of a frame's bytes either takes the rest of the chunk and waits, or takes exactly
the frame's last byte and answers for its checksum.
-/

namespace FlashForwarder

open ProgramLoop

/-- A correctly delimited frame; its checksum field may be wrong. -/
structure Frame where
  /-- `MsgType` -/
  msgType : UInt32
  /-- The bytes that `BodyLength` counts. -/
  body : List UInt8
  /-- The four-byte tail. -/
  checksum : UInt32
  /-- `BodyLength` plus header and tail fits an `int`. -/
  short : body.length < 2 ^ 31 - 12

namespace Frame

/-- The header and body, which the checksum covers. -/
def covered (frame : Frame) : List UInt8 :=
  putUint32 frame.msgType ++ (putUint32 (UInt32.ofNat frame.body.length) ++ frame.body)

/-- The frame on the wire. -/
def bytes (frame : Frame) : List UInt8 := frame.covered ++ putUint32 frame.checksum

/-- The checksum field holds the sum of the covered bytes mod 256. -/
def Genuine (frame : Frame) : Prop := frame.checksum = generateCheckSum frame.covered

instance (frame : Frame) : Decidable frame.Genuine :=
  inferInstanceAs (Decidable (_ = _))

@[simp] theorem length_covered (frame : Frame) :
    frame.covered.length = 8 + frame.body.length := by
  simp [covered]
  omega

@[simp] theorem length_bytes (frame : Frame) :
    frame.bytes.length = 12 + frame.body.length := by
  simp [bytes]
  omega

theorem length_lt (frame : Frame) : frame.bytes.length < 2147483648 := by
  have := frame.short
  simp
  omega

/-- The length field read back from any piece of the frame that holds its header. -/
theorem bodyLength_of_take (frame : Frame) {count : Nat} (header : 8 ≤ count) :
    (getUint32 ((frame.bytes.take count).drop 4)).toNat = frame.body.length := by
  obtain ⟨beyond, rfl⟩ := Nat.exists_eq_add_of_le header
  have shape : (frame.bytes.take (8 + beyond)).drop 4 =
      putUint32 (UInt32.ofNat frame.body.length) ++
        (frame.body ++ putUint32 frame.checksum).take beyond := by
    have parts : frame.bytes =
        putUint32 frame.msgType ++ (putUint32 (UInt32.ofNat frame.body.length) ++
          (frame.body ++ putUint32 frame.checksum)) := by
      simp [bytes, covered]
    have count : 8 + beyond = (putUint32 frame.msgType).length +
        ((putUint32 (UInt32.ofNat frame.body.length)).length + beyond) := by
      simp
      omega
    rw [parts, count, List.take_length_add_append, List.take_length_add_append]
    exact List.drop_left' rfl
  rw [shape, getUint32_putUint32]
  have := frame.short
  rw [UInt32.toNat_ofNat']
  exact Nat.mod_eq_of_lt (by omega)

end Frame

namespace SzBinaryDecoder

/-- The decoder has taken the first `taken` bytes of `frame`. -/
def Inside (frame : Frame) (taken : Nat) (decoder : SzBinaryDecoder) : Prop :=
  decoder.decodeBuffer = frame.bytes.take taken ∧
    match decoder.state with
    | .head => taken < 8 ∧ decoder.bodySize = 0
    | .body => 8 ≤ taken ∧ taken ≤ 8 + frame.body.length ∧
        decoder.bodySize = frame.body.length
    | .tail => 8 + frame.body.length ≤ taken ∧ taken < frame.bytes.length ∧
        decoder.bodySize = frame.body.length

/-- The decoder that waits after an unfinished prefix of a frame. -/
def resting (pending : List UInt8) : SzBinaryDecoder :=
  if pending.length < 8 then
    ⟨.head, pending, 0⟩
  else
    let size := (getUint32 (pending.drop 4)).toNat
    if pending.length < 8 + size ∨ pending.length = 8 then
      ⟨.body, pending, size⟩
    else
      ⟨.tail, pending, size⟩

@[simp] theorem resting_nil : resting [] = fresh := rfl

@[simp] theorem decodeBuffer_resting (pending : List UInt8) :
    (resting pending).decodeBuffer = pending := by
  unfold resting
  split
  · rfl
  · dsimp only
    split <;> rfl

theorem resting_inside (frame : Frame) {taken : Nat} (unfinished : taken < frame.bytes.length) :
    Inside frame taken (resting (frame.bytes.take taken)) := by
  have total := frame.length_bytes
  have length : (frame.bytes.take taken).length = taken := by
    rw [List.length_take]
    omega
  refine ⟨decodeBuffer_resting _, ?_⟩
  unfold resting
  rw [length]
  by_cases header : taken < 8
  · simp [header]
  · have size := frame.bodyLength_of_take (Nat.le_of_not_lt header)
    simp only [header, if_false, size]
    by_cases inBody : taken < 8 + frame.body.length ∨ taken = 8
    · simp only [inBody, if_true, and_true]
      omega
    · simp only [inBody, if_false, and_true]
      omega

/-- Away from the seam between an empty body and the tail, a decoder's position inside a frame
determines it. -/
theorem Inside.eq_resting {frame : Frame} {taken : Nat} {decoder : SzBinaryDecoder}
    (inside : Inside frame taken decoder)
    (settled : decoder.state = .body → taken < 8 + frame.body.length ∨ taken = 8)
    (past : decoder.state = .tail → taken ≠ 8) :
    decoder = resting (frame.bytes.take taken) := by
  obtain ⟨state, buffer, size⟩ := decoder
  obtain ⟨bufferEq, position⟩ := inside
  have total := frame.length_bytes
  have length : (frame.bytes.take taken).length = taken := by
    rw [List.length_take]
    cases state <;> simp only at position <;> omega
  simp only at bufferEq
  subst bufferEq
  unfold resting
  rw [length]
  cases state with
  | head =>
      simp only at position
      simp [position]
  | body =>
      simp only at position settled
      have atBody := settled trivial
      have header : ¬taken < 8 := by omega
      have sizeEq := frame.bodyLength_of_take (Nat.le_of_not_lt header)
      simp only [header, if_false, sizeEq, atBody, if_true]
      simp [position.2.2]
  | tail =>
      simp only at position past
      have notHeader := past trivial
      have header : ¬taken < 8 := by omega
      have sizeEq := frame.bodyLength_of_take (Nat.le_of_not_lt header)
      have inTail : ¬(taken < 8 + frame.body.length ∨ taken = 8) := by omega
      simp only [header, if_false, sizeEq, inTail]
      simp [position.2.2]

end SzBinaryDecoder

end FlashForwarder
