import FlashForwarder.Compressor.RoundTrip

/-!
# The arithmetic of deltas

`encode` and `decode` of a `DELTA` field are one body for three integer types.  The promotion rules
make the subtraction and the addition unsigned for `uint64_t`, where they wrap, and signed for the
other two, where an overflow is undefined behaviour.
-/

namespace FlashForwarder

open WireFormat

/-- The result of a signed 64-bit operation, `none` if it overflows. -/
def int64Result (exact_ : Int) : Option Int64 :=
  if -9223372036854775808 ≤ exact_ ∧ exact_ < 9223372036854775808 then some (Int64.ofInt exact_)
  else none

/-- An integer type with the two operations; `none` stands for an overflow. -/
class DeltaArithmetic (α : Type) where
  /-- `int64_t delta = static_cast<int64_t>(newValue) - cacheValue` -/
  subtract : α → α → Option Int64
  /-- `newValue = cacheValue + delta` -/
  add : α → Int64 → Option α

instance : DeltaArithmetic Int64 where
  subtract newValue cacheValue := int64Result (newValue.toInt - cacheValue.toInt)
  add cacheValue delta := int64Result (cacheValue.toInt + delta.toInt)

/-- Both operands are converted to `uint64_t`. -/
instance : DeltaArithmetic UInt64 where
  subtract newValue cacheValue := some (newValue - cacheValue).toInt64
  add cacheValue delta := some (cacheValue + delta.toUInt64)

/-- Both operands are converted to `int64_t`, and the sum is cut to 32 bits. -/
instance : DeltaArithmetic UInt32 where
  subtract newValue cacheValue := int64Result (newValue.toNat - cacheValue.toNat)
  add cacheValue delta :=
    (int64Result (cacheValue.toNat + delta.toInt)).map fun sum => sum.toUInt64.toUInt32

/-- What does not overflow is what the instruction computes. -/
class LawfulDeltaArithmetic (α : Type) [FieldInteger α] [DeltaArithmetic α] : Prop where
  subtract_eq : ∀ (newValue cacheValue : α) (delta : Int64),
    DeltaArithmetic.subtract newValue cacheValue = some delta →
      FieldInstructionInteger.difference newValue cacheValue = delta
  add_eq : ∀ (cacheValue newValue : α) (delta : Int64),
    DeltaArithmetic.add cacheValue delta = some newValue →
      FieldInteger.ofBits (FieldInteger.toBits cacheValue + delta.toUInt64) = newValue

theorem int64Result_eq_some {exact_ : Int} {result : Int64} : int64Result exact_ = some result ↔
    (-9223372036854775808 ≤ exact_ ∧ exact_ < 9223372036854775808) ∧
      Int64.ofInt exact_ = result := by
  rw [int64Result, Option.ite_none_right_eq_some, Option.some_inj]

instance : LawfulDeltaArithmetic Int64 where
  subtract_eq newValue cacheValue delta subtracted := by
    obtain ⟨-, rfl⟩ := int64Result_eq_some.mp subtracted
    rw [Int64.ofInt_sub, Int64.ofInt_toInt, Int64.ofInt_toInt]
    rfl
  add_eq cacheValue newValue delta added := by
    obtain ⟨-, rfl⟩ := int64Result_eq_some.mp added
    rw [Int64.ofInt_add, Int64.ofInt_toInt, Int64.ofInt_toInt]
    rfl

instance : LawfulDeltaArithmetic UInt64 where
  subtract_eq _ _ _ subtracted := Option.some_inj.mp subtracted
  add_eq _ _ _ added := Option.some_inj.mp added

theorem ofInt_toNat (value : UInt32) :
    Int64.ofInt (value.toNat : Int) = value.toUInt64.toInt64 := by
  rw [Int64.ofInt_eq_ofNat]
  exact congrArg UInt64.toInt64 (UInt64.ofNat_uInt32ToNat value)

instance : LawfulDeltaArithmetic UInt32 where
  subtract_eq newValue cacheValue delta subtracted := by
    obtain ⟨-, rfl⟩ := int64Result_eq_some.mp subtracted
    rw [Int64.ofInt_sub, ofInt_toNat, ofInt_toNat]
    rfl
  add_eq cacheValue newValue delta added := by
    obtain ⟨sum, summed, rfl⟩ := Option.map_eq_some_iff.mp added
    obtain ⟨-, rfl⟩ := int64Result_eq_some.mp summed
    rw [Int64.ofInt_add, ofInt_toNat, Int64.ofInt_toInt]
    rfl

/-! ## One field -/

section

variable {α : Type} [FieldInteger α] [DeltaArithmetic α]

/-- The `newValue` of `decode`. -/
def restored (cacheValue : α) (delta : Int64) : α :=
  FieldInteger.ofBits (FieldInteger.toBits cacheValue + delta.toUInt64)

/-- Neither the difference in `encode` nor the sum in `decode` overflows, and the sum is the new
value. -/
def StaysInRange (newValue cacheValue : α) : Prop :=
  let delta := FieldInstructionInteger.difference newValue cacheValue
  DeltaArithmetic.subtract newValue cacheValue = some delta ∧
    DeltaArithmetic.add cacheValue delta = some (restored cacheValue delta) ∧
    restored cacheValue delta = newValue

theorem staysInRange_iff_exists [LawfulDeltaArithmetic α] {newValue cacheValue : α} :
    StaysInRange newValue cacheValue ↔
      ∃ delta, DeltaArithmetic.subtract newValue cacheValue = some delta ∧
        DeltaArithmetic.add cacheValue delta = some newValue := by
  constructor
  · rintro ⟨subtracted, added, same⟩
    exact ⟨_, subtracted, added.trans (congrArg some same)⟩
  · rintro ⟨delta, subtracted, added⟩
    obtain rfl := LawfulDeltaArithmetic.subtract_eq newValue cacheValue delta subtracted
    have same := LawfulDeltaArithmetic.add_eq cacheValue newValue _ added
    exact ⟨subtracted, added.trans (congrArg some same.symm), same⟩

end

section

variable {α : Type} [FieldInteger α] {instruction : FieldInstructionInteger α} {pMap : UInt32}
  {memory : Memory} {address : Int} {size : UInt64} {message cacheMessage : Message}
  {field cacheField : Field}

/-- `decode` of a difference sets the field, and its snapshot, to what is restored. -/
theorem FieldInstructionInteger.decode_restores (delta : instruction.type = .delta)
    (partial_ : pMap &&& fullMap = 0) {difference : Int64}
    (held : memory.Holds address (writeSignedVarint64 difference))
    (room : (writeSignedVarint64 difference).length ≤ size.toNat)
    (found : message.getField instruction.index = some field)
    (cached : cacheMessage.getField instruction.index = some cacheField) :
    let newValue := restored (cacheField.getInteger (FieldInteger.ofBits (α := α) 0)) difference
    (instruction.decode memory address size message cacheMessage pMap).outcome = some
      ⟨(writeSignedVarint64 difference).length,
        message.setField instruction.index (field.setInteger newValue),
        cacheMessage.setField instruction.index (cacheField.setInteger newValue)⟩ :=
  FieldInstructionInteger.outcome_decode_delta delta partial_ held room found cached

/-- When the arithmetic of a field stays in range, `decode` gets from the difference of `encode` the
value that it was taken from. -/
theorem StaysInRange.decode [DeltaArithmetic α] {newValue : α}
    (inRange : StaysInRange newValue (cacheField.getInteger (FieldInteger.ofBits 0)))
    (delta : instruction.type = .delta) (partial_ : pMap &&& fullMap = 0)
    (held : memory.Holds address (writeSignedVarint64 (FieldInstructionInteger.difference newValue
      (cacheField.getInteger (FieldInteger.ofBits 0)))))
    (room : (writeSignedVarint64 (FieldInstructionInteger.difference newValue
      (cacheField.getInteger (FieldInteger.ofBits 0)))).length ≤ size.toNat)
    (found : message.getField instruction.index = some field)
    (cached : cacheMessage.getField instruction.index = some cacheField) :
    ∃ consumed : Int,
      (instruction.decode memory address size message cacheMessage pMap).outcome = some
        ⟨consumed, message.setField instruction.index (field.setInteger newValue),
          cacheMessage.setField instruction.index (cacheField.setInteger newValue)⟩ := by
  have restores := FieldInstructionInteger.decode_restores delta partial_ held room found cached
  rw [inRange.2.2] at restores
  exact ⟨_, restores⟩

end

/-- The two values are less than `2 ^ 63` apart, downwards at most that. -/
def Moderate (newValue cacheValue : Int64) : Prop :=
  -9223372036854775808 ≤ newValue.toInt - cacheValue.toInt ∧
    newValue.toInt - cacheValue.toInt < 9223372036854775808

theorem staysInRange_int64_iff {newValue cacheValue : Int64} :
    StaysInRange newValue cacheValue ↔ Moderate newValue cacheValue := by
  rw [staysInRange_iff_exists]
  constructor
  · rintro ⟨delta, subtracted, -⟩
    exact (int64Result_eq_some.mp subtracted).1
  · intro moderate
    refine ⟨Int64.ofInt (newValue.toInt - cacheValue.toInt),
      int64Result_eq_some.mpr ⟨moderate, rfl⟩, int64Result_eq_some.mpr ?_⟩
    have lower := newValue.le_toInt
    have upper := newValue.toInt_lt
    have exact_ : (Int64.ofInt (newValue.toInt - cacheValue.toInt)).toInt =
        newValue.toInt - cacheValue.toInt :=
      Int64.toInt_ofInt_of_le moderate.1 moderate.2
    rw [exact_, add_sub_cancel]
    exact ⟨⟨by omega, by omega⟩, Int64.ofInt_toInt newValue⟩

theorem staysInRange_uint64 (newValue cacheValue : UInt64) : StaysInRange newValue cacheValue := by
  refine staysInRange_iff_exists.mpr
    ⟨(newValue - cacheValue).toInt64, rfl, Option.some_inj.mpr ?_⟩
  rw [UInt64.toUInt64_toInt64, UInt64.add_comm, UInt64.sub_add_cancel]

theorem staysInRange_uint32 (newValue cacheValue : UInt32) : StaysInRange newValue cacheValue := by
  have newSmall := newValue.toNat_lt
  have cacheSmall := cacheValue.toNat_lt
  have exact_ : (Int64.ofInt ((newValue.toNat : Int) - cacheValue.toNat)).toInt =
      newValue.toNat - cacheValue.toNat :=
    Int64.toInt_ofInt_of_le (by omega) (by omega)
  have summed : int64Result ((cacheValue.toNat : Int) +
      (Int64.ofInt ((newValue.toNat : Int) - cacheValue.toNat)).toInt) =
        some newValue.toUInt64.toInt64 := by
    rw [exact_, add_sub_cancel]
    exact int64Result_eq_some.mpr ⟨⟨by omega, by omega⟩, ofInt_toNat newValue⟩
  refine staysInRange_iff_exists.mpr ⟨Int64.ofInt ((newValue.toNat : Int) - cacheValue.toNat),
    int64Result_eq_some.mpr ⟨⟨by omega, by omega⟩, rfl⟩, ?_⟩
  simp only [DeltaArithmetic.add, summed, Option.map_some]
  simp

namespace FieldInstruction

/-- A relation holds between the new and the cached value of a `DELTA` field. -/
def relatesDelta {α : Type} [FieldInteger α] (relation : α → α → Prop)
    (instruction : FieldInstructionInteger α) (message cacheMessage : Message) : Prop :=
  instruction.type = .delta →
    ∀ field ∈ message.getField instruction.index,
      ∀ cacheField ∈ cacheMessage.getField instruction.index,
        relation (field.getInteger (FieldInteger.ofBits 0))
          (cacheField.getInteger (FieldInteger.ofBits 0))

/-- If the field is a `DELTA` integer, its arithmetic stays in range. -/
def InRange : FieldInstruction → Message → Message → Prop
  | int64 instruction => relatesDelta StaysInRange instruction
  | uint64 instruction => relatesDelta StaysInRange instruction
  | uint32 instruction => relatesDelta StaysInRange instruction
  | string _ => fun _ _ => True

/-- If the field is a signed `DELTA` integer, it moves by less than `2 ^ 63`. -/
def MovesModerately : FieldInstruction → Message → Message → Prop
  | int64 instruction => relatesDelta Moderate instruction
  | uint64 _ => fun _ _ => True
  | uint32 _ => fun _ _ => True
  | string _ => fun _ _ => True

theorem inRange_iff (instruction : FieldInstruction) (message cacheMessage : Message) :
    instruction.InRange message cacheMessage ↔
      instruction.MovesModerately message cacheMessage := by
  cases instruction with
  | int64 instruction => simp only [InRange, MovesModerately, relatesDelta, staysInRange_int64_iff]
  | uint64 instruction =>
      simp [InRange, MovesModerately, relatesDelta, staysInRange_uint64]
  | uint32 instruction =>
      simp [InRange, MovesModerately, relatesDelta, staysInRange_uint32]
  | string instruction => rfl

end FieldInstruction

/-! ## Runs -/

section

variable (holds : FieldInstruction → Message → Message → Prop)

/-- A relation between a message and the snapshot holds for each instruction when its turn in
`encode` comes. -/
def Template.EveryField (message : Message) : List FieldInstruction → Encoding → Prop
  | [], _ => True
  | instruction :: instructions, state =>
      holds instruction message state.cacheMessage ∧
        ∀ next ∈ instruction.encode message state, EveryField message instructions next

/-- The relation holds for each field that a call encodes against a snapshot. -/
def Context.EveryField (context : Context) (call : Call) : Prop :=
  ∀ tmp ∈ context.templates.getTemplate call.templateID,
    ∀ cacheMap ∈ context.templateCacheMaps[tmp.index.toNat]?,
      ∀ cacheArray ∈ context.templateCacheArrays[tmp.index.toNat]?,
        ∀ slot ∈ cacheMap.lookup call.token, ∀ cacheMessage ∈ cacheArray[slot]?.join,
          Template.EveryField holds call.message tmp.instructions
            ⟨cacheMessage, tmp.header cacheMessage.index ++ [0, 0, 0, 0], 0⟩

/-- The relation holds for each field that a run of calls encodes against a snapshot. -/
def EveryField : Context → List Call → Prop
  | _, [] => True
  | context, call :: calls =>
      context.EveryField holds call ∧
        ∀ next ∈ context.encode call.message call.templateID call.token [],
          EveryField next.1 calls

end

/-- The arithmetic of deltas stays in range in exactly those runs in which no signed field moves by
`2 ^ 63` or more. -/
theorem deltas_inRange_iff (added : List Template) (calls : List Call) :
    EveryField FieldInstruction.InRange (Context.new (Templates.ofList added)) calls ↔
      EveryField FieldInstruction.MovesModerately (Context.new (Templates.ofList added)) calls := by
  have same : FieldInstruction.InRange = FieldInstruction.MovesModerately := by
    funext instruction message cacheMessage
    exact propext (instruction.inRange_iff message cacheMessage)
  rw [same]

/-- One signed field, encoded as a difference. -/
def positionTemplate : Template :=
  ((Template.new 1).setMessage (Message.new.addField (Field.new .int64))).addInstruction
    (.int64 ⟨.delta, true, false, 0⟩)

/-- From `-1` to the largest value the subtraction overflows. -/
theorem largest_step_not_inRange : ¬∀ (added : List Template) (calls : List Call),
    EveryField FieldInstruction.InRange (Context.new (Templates.ofList added)) calls := by
  intro claimed
  obtain ⟨-, later⟩ := claimed [positionTemplate] [priceCall (-1), priceCall 9223372036854775807]
  obtain ⟨inRange, -⟩ := later _ rfl
  obtain ⟨inRange, -⟩ := inRange _ rfl _ rfl _ rfl _ rfl _ rfl
  obtain ⟨moderate, below⟩ := staysInRange_int64_iff.mp (inRange rfl _ rfl _ rfl)
  exact absurd below (by decide)

end FlashForwarder
