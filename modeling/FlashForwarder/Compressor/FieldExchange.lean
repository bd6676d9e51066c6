import FlashForwarder.Compressor.Instruction

/-!
# One field on the wire

What an instruction writes depends on two values only, the field's and the snapshot's, and what
its peer makes of those bytes depends on the same two.
-/

namespace FlashForwarder

open WireFormat

/-! ## Outcomes that a condition decides -/

/-- The outcome is `value` if the condition holds, and there is none otherwise. -/
def DefinedIf {α : Type*} (condition : Prop) (outcome : Option α) (value : α) : Prop :=
  (condition → outcome = some value) ∧ (¬condition → outcome = none)

namespace DefinedIf

variable {α β : Type*} {condition later : Prop} {outcome : Option α} {value : α}

theorem of_some (always : outcome = some value) (holds : condition) :
    DefinedIf condition outcome value :=
  ⟨fun _ => always, absurd holds⟩

theorem bind {next : α → Option β} {final : β} (first : DefinedIf condition outcome value)
    (rest : DefinedIf later (next value) final) :
    DefinedIf (condition ∧ later) (outcome.bind next) final := by
  refine ⟨fun both => by rw [first.1 both.1, Option.bind_some, rest.1 both.2], fun fails => ?_⟩
  by_cases here : condition
  · rw [first.1 here, Option.bind_some, rest.2 fun last => fails ⟨here, last⟩]
  · rw [first.2 here, Option.bind_none]

theorem bind_some {next : α → Option β} {final : β} (first : DefinedIf condition outcome value)
    (rest : next value = some final) : DefinedIf condition (outcome.bind next) final :=
  ⟨fun holds => by rw [first.1 holds, Option.bind_some, rest],
    fun fails => by rw [first.2 fails, Option.bind_none]⟩

theorem congr (first : DefinedIf condition outcome value) (same : condition ↔ later) :
    DefinedIf later outcome value :=
  ⟨fun holds => first.1 (same.mpr holds), fun fails => first.2 (mt same.mp fails)⟩

theorem elim {result : α} (first : DefinedIf condition outcome value)
    (defined : outcome = some result) : condition ∧ result = value := by
  by_cases holds : condition
  · exact ⟨holds, Option.some_inj.mp (defined.symm.trans (first.1 holds))⟩
  · simp [first.2 holds] at defined

end DefinedIf

namespace Message

/-- A field pointer inside an exact count points at its field. -/
theorem getField_of_counted {message : Message} (counted : message.Counted) {front : List Field}
    {field : Field} {back : List Field} (split : message.fields = front ++ field :: back)
    {index : UInt16} (at_ : index.toNat = front.length) :
    message.getField index = some field := by
  have inside : ¬index ≥ message.fieldCount := by
    rw [ge_iff_le, UInt16.le_iff_toNat_le, counted, split, at_]
    simp
  rw [getField, if_neg inside, split, at_]
  simp

/-- Replace the field at a place. -/
def setField (message : Message) (index : UInt16) (field : Field) : Message :=
  { message with fields := message.fields.set index.toNat field }

theorem modifyField_of_getField {message : Message} {index : UInt16} {field : Field}
    (found : message.getField index = some field) (change : Field → Field) :
    message.modifyField index change = some (message.setField index (change field)) := by
  simp [modifyField, found, setField]

theorem setField_self {message : Message} {index : UInt16} {field : Field}
    (found : message.getField index = some field) : message.setField index field = message := by
  have here : message.fields[index.toNat]? = some field := by
    unfold getField at found
    split at found
    · simp at found
    · exact found
  obtain ⟨bound, eq⟩ := List.getElem?_eq_some_iff.mp here
  rw [setField, ← eq, List.set_getElem_self]

end Message

namespace FieldValue

/-- A value as it survives the wire: the length of a string is cut to 32 bits. -/
def image : FieldValue → FieldValue
  | integer bits => integer bits
  | text bytes => text (bytes.take (bytes.length % 2 ^ 32))
  | unread => unread

/-- A value that `encode` can write. -/
def Writable : FieldValue → Prop
  | text bytes => FlashForwarder.Writable bytes
  | _ => True

end FieldValue

namespace FieldInstructionInteger

variable {α : Type} [FieldInteger α] [DecidableEq α] (instruction : FieldInstructionInteger α)

/-- The bytes of a value in full. -/
def full (α : Type) [FieldInteger α] : FieldValue → List UInt8
  | .integer bits => hostBytes (FieldInteger.size α) bits
  | _ => []

/-- The bytes of a changed or unchanged value. -/
def wireInteger (old new : α) : List UInt8 :=
  match instruction.type with
  | .copy => if new ≠ old then instruction.write new else []
  | .delta => writeSignedVarint64 (difference new old)

/-- The bytes of a field encoded against a snapshot. -/
def wire : FieldValue → FieldValue → List UInt8
  | .integer old, .integer new =>
      instruction.wireInteger (FieldInteger.ofBits old) (FieldInteger.ofBits new)
  | _, _ => []

/-- Whether a field encoded against a snapshot is marked present. -/
def marks (old new : FieldValue) : Bool := instruction.type = .delta || decide (new ≠ old)

variable [LawfulFieldInteger α]

omit [DecidableEq α] in
theorem toBits_inj {left right : α} :
    FieldInteger.toBits left = FieldInteger.toBits right ↔ left = right := by
  constructor
  · intro same
    rw [← LawfulFieldInteger.ofBits_toBits left, same, LawfulFieldInteger.ofBits_toBits]
  · rintro rfl
    rfl

theorem wire_toBits (old new : α) :
    instruction.wire (.integer (FieldInteger.toBits old)) (.integer (FieldInteger.toBits new)) =
      instruction.wireInteger old new := by
  simp [wire, LawfulFieldInteger.ofBits_toBits]

/-- `encode` appends the field's bytes, marks it and brings the snapshot up to date. -/
theorem encode_spec {message : Message} {state : Encoding} {field cacheField : Field}
    (found : message.getField instruction.index = some field)
    (cached : state.cacheMessage.getField instruction.index = some cacheField)
    (typed : field.type = FieldInteger.fieldType α)
    (cacheTyped : cacheField.type = FieldInteger.fieldType α) :
    ∃ updated : Field, updated.type = FieldInteger.fieldType α ∧ updated.value = field.value ∧
      instruction.encode message state = some
        { cacheMessage := state.cacheMessage.setField instruction.index updated
          buffer := state.buffer ++ instruction.wire cacheField.value field.value
          pMap := if instruction.marks cacheField.value field.value then
              setpMap state.pMap instruction.index else state.pMap } := by
  have newValue := Field.value_getInteger typed (FieldInteger.ofBits (α := α) 0)
  have oldValue := Field.value_getInteger cacheTyped (FieldInteger.ofBits (α := α) 0)
  have changed := Message.modifyField_of_getField cached
    (·.setInteger (field.getInteger (FieldInteger.ofBits (α := α) 0)))
  have stored := Field.value_setInteger cacheTyped
    (field.getInteger (FieldInteger.ofBits (α := α) 0))
  have storedType : (cacheField.setInteger (field.getInteger
      (FieldInteger.ofBits (α := α) 0))).type = FieldInteger.fieldType α := by
    rw [Field.type_setInteger, cacheTyped]
  rw [newValue, oldValue, wire_toBits]
  cases kind : instruction.type with
  | copy =>
      by_cases same : field.getInteger (FieldInteger.ofBits (α := α) 0) =
          cacheField.getInteger (FieldInteger.ofBits 0)
      · refine ⟨cacheField, cacheTyped, ?_, ?_⟩
        · rw [oldValue, same]
        · simp [encode, found, cached, kind, same, wireInteger, marks, Message.setField_self cached]
      · refine ⟨_, storedType, stored, ?_⟩
        simp [encode, found, cached, kind, same, wireInteger, marks, changed, toBits_inj]
  | delta =>
      refine ⟨_, storedType, stored, ?_⟩
      simp [encode, found, cached, kind, wireInteger, marks, changed]

omit [DecidableEq α] in
/-- `encode` in full appends the value as the host stores it. -/
theorem encodeFull_spec {message : Message} {field : Field}
    (found : message.getField instruction.index = some field)
    (typed : field.type = FieldInteger.fieldType α) (buffer : List UInt8) :
    instruction.encodeFull message buffer = some (buffer ++ full α field.value) := by
  rw [Field.value_getInteger typed (FieldInteger.ofBits (α := α) 0)]
  simp [encodeFull, found, full]

end FieldInstructionInteger

/-! ## Reading -/

theorem readVarint32At_write {memory : Memory} {address : Int} {value : UInt32}
    (held : memory.Holds address (writeVarint32 value)) :
    (readVarint32At memory address).outcome =
      some ⟨(writeVarint32 value).length, some value, (writeVarint32 value).length⟩ := by
  rw [← readVarint32_writeVarint32 value fun index inside => held.getElem? inside]
  rfl

theorem readVarint64At_write {memory : Memory} {address : Int} {value : UInt64}
    (held : memory.Holds address (writeVarint64 value)) :
    (readVarint64At memory address).outcome =
      some ⟨(writeVarint64 value).length, some value, (writeVarint64 value).length⟩ := by
  rw [← readVarint64_writeVarint64 value fun index inside => held.getElem? inside]
  rfl

theorem outcome_setBoth {message cacheMessage : Message} {index : UInt16} {field cacheField : Field}
    (found : message.getField index = some field)
    (cached : cacheMessage.getField index = some cacheField) (change : Field → Field)
    (consume : Int) :
    (setBoth message cacheMessage index change consume).outcome = some
      ⟨consume, message.setField index (change field),
        cacheMessage.setField index (change cacheField)⟩ := by
  simp [setBoth, Message.modifyField_of_getField found, Message.modifyField_of_getField cached]

/-- From `bytes` and a presence map, `decode` fills a field and brings its snapshot up to date. -/
def Exchanges (decode : Memory → Int → UInt64 → Message → Message → UInt32 →
      Traced Event FieldDecoded) (index : UInt16) (type : FieldType) (pMap : UInt32)
    (bytes : List UInt8) (filled cached filled' cached' : FieldValue) : Prop :=
  ∀ (memory : Memory) (address : Int) (size : UInt64) (message cacheMessage : Message)
    (field cacheField : Field), memory.Holds address bytes → bytes.length ≤ size.toNat →
    size.toNat < 2147483648 → message.getField index = some field →
    cacheMessage.getField index = some cacheField → field.type = type →
    cacheField.type = type → field.value = filled → cacheField.value = cached →
    ∃ field' cacheField' : Field, field'.type = type ∧ cacheField'.type = type ∧
      field'.value = filled' ∧ cacheField'.value = cached' ∧
      (decode memory address size message cacheMessage pMap).outcome = some
        ⟨bytes.length, message.setField index field', cacheMessage.setField index cacheField'⟩

namespace FieldInstructionInteger

variable {α : Type} [FieldInteger α] [LawfulFieldInteger α]
  {instruction : FieldInstructionInteger α}

/-- The reader chosen by the flags is as wide as the type. -/
def Sound (instruction : FieldInstructionInteger α) : Prop :=
  instruction.shortBits = decide (FieldInteger.size α = 4)

theorem read_write (sound : instruction.Sound) {memory : Memory} {address : Int} {value : α}
    (held : memory.Holds address (instruction.write value)) :
    (instruction.read memory address).outcome =
      some (((instruction.write value).length : Int), value) := by
  have range := LawfulFieldInteger.toBits_lt value
  have back := LawfulFieldInteger.ofBits_toBits value
  rcases LawfulFieldInteger.size_cases (α := α) with four | eight
  · have short : instruction.shortBits = true := by simpa [Sound, four] using sound
    have low : (FieldInteger.toBits value).toUInt32.toUInt64 = FieldInteger.toBits value := by
      apply UInt64.toNat_inj.mp
      rw [four] at range
      simp
      omega
    cases signed : instruction.signed with
    | false =>
        simp only [write, signed, short, Bool.false_eq_true, if_false, if_true] at held ⊢
        simp [read, signed, short, Traced.outcome_bind, readVarint32At_write held, low, back]
    | true =>
        simp only [write, signed, short, if_true, writeSignedVarint32] at held ⊢
        simp [read, signed, short, Traced.outcome_bind, readVarint32At_write held,
          zigZagDecode32_zigZagEncode32, low, back]
  · have long : instruction.shortBits = false := by simpa [Sound, eight] using sound
    cases signed : instruction.signed with
    | false =>
        simp only [write, signed, long, Bool.false_eq_true, if_false] at held ⊢
        simp [read, signed, long, eight, Traced.outcome_bind, readVarint64At_write held, back]
    | true =>
        simp only [write, signed, long, Bool.false_eq_true, if_true, if_false,
          writeSignedVarint64] at held ⊢
        simp [read, signed, long, eight, Traced.outcome_bind, readVarint64At_write held,
          zigZagDecode64_zigZagEncode64, back]

theorem exchanges_full (value : α) (filled cached : FieldValue) :
    Exchanges instruction.decode instruction.index (FieldInteger.fieldType α) fullMap
      (hostBytes (FieldInteger.size α) (FieldInteger.toBits value)) filled cached
      (.integer (FieldInteger.toBits value)) (.integer (FieldInteger.toBits value)) := by
  intro memory address size message cacheMessage field cacheField held room small found cachedField
    typed cacheTyped _ _
  have bound : FieldInteger.size α ≤ 8 := by
    rcases LawfulFieldInteger.size_cases (α := α) with four | eight <;> omega
  have loaded : hostValue (memory.read address (FieldInteger.size α)) =
      FieldInteger.toBits value := by
    have bytes := held
    rw [Memory.Holds, length_hostBytes] at bytes
    rw [bytes]
    exact hostValue_hostBytes bound (LawfulFieldInteger.toBits_lt value)
  rw [length_hostBytes] at room
  refine ⟨field.setInteger value, cacheField.setInteger value, by rw [Field.type_setInteger, typed],
    by rw [Field.type_setInteger, cacheTyped], Field.value_setInteger typed value,
    Field.value_setInteger cacheTyped value, ?_⟩
  have full : fullMap &&& fullMap ≠ 0 := by decide
  rw [decode, if_pos full, if_neg (by omega)]
  simp [Traced.outcome_bind, loaded, LawfulFieldInteger.ofBits_toBits,
    outcome_setBoth found cachedField]

theorem exchanges_copied (sound : instruction.Sound) (copy : instruction.type = .copy)
    {pMap : UInt32} (partial_ : pMap &&& fullMap = 0) (present : marked pMap instruction.index)
    (value : α) (filled cached : FieldValue) :
    Exchanges instruction.decode instruction.index (FieldInteger.fieldType α) pMap
      (instruction.write value) filled cached (.integer (FieldInteger.toBits value))
      (.integer (FieldInteger.toBits value)) := by
  intro memory address size message cacheMessage field cacheField held room small found cachedField
    typed cacheTyped _ _
  refine ⟨field.setInteger value, cacheField.setInteger value, by rw [Field.type_setInteger, typed],
    by rw [Field.type_setInteger, cacheTyped], Field.value_setInteger typed value,
    Field.value_setInteger cacheTyped value, ?_⟩
  have accepted : ¬(((instruction.write value).length : Int) = -1 ∨
      (size.toNat : Int) < (instruction.write value).length) := by omega
  simp only [decode, partial_, ne_eq, not_true_eq_false, if_false, copy, present, if_true,
    Traced.outcome_bind, read_write sound held, Option.bind_some, accepted,
    outcome_setBoth found cachedField]

omit [LawfulFieldInteger α] in
/-- A copied value not marked present leaves both messages alone. -/
theorem exchanges_absent (copy : instruction.type = .copy) {pMap : UInt32}
    (partial_ : pMap &&& fullMap = 0) (absent : marked pMap instruction.index = false)
    (filled cached : FieldValue) :
    Exchanges instruction.decode instruction.index (FieldInteger.fieldType α) pMap [] filled cached
      filled cached := by
  intro memory address size message cacheMessage field cacheField _ _ _ found cachedField
    typed cacheTyped value cacheValue
  refine ⟨field, cacheField, typed, cacheTyped, value, cacheValue, ?_⟩
  simp [decode, partial_, copy, absent, Message.setField_self found,
    Message.setField_self cachedField]

omit [LawfulFieldInteger α] in
theorem outcome_decode_delta (delta : instruction.type = .delta) {pMap : UInt32}
    (partial_ : pMap &&& fullMap = 0) {memory : Memory} {address : Int} {size : UInt64}
    {message cacheMessage : Message} {field cacheField : Field} {difference : Int64}
    (held : memory.Holds address (writeSignedVarint64 difference))
    (room : (writeSignedVarint64 difference).length ≤ size.toNat)
    (found : message.getField instruction.index = some field)
    (cached : cacheMessage.getField instruction.index = some cacheField) :
    let cacheValue : α := cacheField.getInteger (FieldInteger.ofBits 0)
    let newValue : α :=
      FieldInteger.ofBits (FieldInteger.toBits cacheValue + difference.toUInt64)
    (instruction.decode memory address size message cacheMessage pMap).outcome = some
      ⟨(writeSignedVarint64 difference).length,
        message.setField instruction.index (field.setInteger newValue),
        cacheMessage.setField instruction.index (cacheField.setInteger newValue)⟩ := by
  unfold writeSignedVarint64 at held room ⊢
  have accepted : ¬(((writeVarint64 (zigZagEncode64 difference)).length : Int) = -1 ∨
      (size.toNat : Int) < (writeVarint64 (zigZagEncode64 difference)).length) := by
    omega
  simp only [decode, partial_, ne_eq, not_true_eq_false, if_false, delta, Traced.outcome_bind,
    readVarint64At_write held, Option.bind_some, accepted, Option.getD_some,
    zigZagDecode64_zigZagEncode64, cached, Traced.ofOption_some, Traced.outcome_pure,
    outcome_setBoth found cached]

/-- A difference is added back to the same snapshot. -/
theorem exchanges_delta (delta : instruction.type = .delta) {pMap : UInt32}
    (partial_ : pMap &&& fullMap = 0) (old new : α) (filled : FieldValue) :
    Exchanges instruction.decode instruction.index (FieldInteger.fieldType α) pMap
      (writeSignedVarint64 (difference new old)) filled (.integer (FieldInteger.toBits old))
      (.integer (FieldInteger.toBits new)) (.integer (FieldInteger.toBits new)) := by
  intro memory address size message cacheMessage field cacheField held room small found cachedField
    typed cacheTyped _ cacheValue
  refine ⟨field.setInteger new, cacheField.setInteger new, by rw [Field.type_setInteger, typed],
    by rw [Field.type_setInteger, cacheTyped], Field.value_setInteger typed new,
    Field.value_setInteger cacheTyped new, ?_⟩
  have loaded : FieldInteger.toBits (cacheField.getInteger (FieldInteger.ofBits 0) : α) =
      FieldInteger.toBits old := by
    rw [Field.value_getInteger cacheTyped (FieldInteger.ofBits (α := α) 0)] at cacheValue
    exact FieldValue.integer.inj cacheValue
  have sum : FieldInteger.toBits old + (difference new old).toUInt64 = FieldInteger.toBits new := by
    simp only [difference, UInt64.toUInt64_toInt64]
    grind
  have added := outcome_decode_delta delta partial_ held room found cachedField
  simp only [loaded, sum, LawfulFieldInteger.ofBits_toBits] at added
  exact added

/-- A field encoded against the same snapshot is read back, unless it was left out. -/
theorem exchanges_wire [DecidableEq α] (sound : instruction.Sound) {pMap : UInt32}
    (partial_ : pMap &&& fullMap = 0) (old new : α) (filled : FieldValue)
    (present : marked pMap instruction.index =
      instruction.marks (.integer (FieldInteger.toBits old)) (.integer (FieldInteger.toBits new))) :
    Exchanges instruction.decode instruction.index (FieldInteger.fieldType α) pMap
      (instruction.wire (.integer (FieldInteger.toBits old)) (.integer (FieldInteger.toBits new)))
      filled (.integer (FieldInteger.toBits old))
      (if instruction.marks (.integer (FieldInteger.toBits old))
        (.integer (FieldInteger.toBits new)) then .integer (FieldInteger.toBits new) else filled)
      (.integer (FieldInteger.toBits new)) := by
  rw [wire_toBits]
  cases kind : instruction.type with
  | copy =>
      by_cases same : new = old
      · subst same
        simp only [marks, kind, wireInteger] at present ⊢
        simpa using exchanges_absent kind partial_ (by simpa using present) filled _
      · have differ : FieldValue.integer (FieldInteger.toBits new) ≠
            .integer (FieldInteger.toBits old) := by
          simpa [toBits_inj] using same
        have here : marked pMap instruction.index = true := by
          rw [present]
          simp [marks, differ]
        have copied := exchanges_copied sound kind partial_ here new filled
          (.integer (FieldInteger.toBits old))
        simpa [marks, kind, wireInteger, differ, same] using copied
  | delta =>
      simp only [marks, kind, wireInteger] at present ⊢
      simpa using exchanges_delta kind partial_ old new filled

end FieldInstructionInteger

namespace FieldInstructionString

variable {instruction : FieldInstructionString}

/-- The bytes of a string in full. -/
def full : FieldValue → List UInt8
  | .text bytes => stringBytes bytes
  | _ => []

/-- The bytes of a string encoded against a snapshot. -/
def wire : FieldValue → FieldValue → List UInt8
  | .text old, .text new => if new ≠ old then stringBytes new else []
  | _, _ => []

theorem writeString_definedIf (value : List UInt8) :
    DefinedIf (FieldValue.text value).Writable (writeString value) (stringBytes value) :=
  ⟨fun writable => if_pos writable, fun huge => if_neg huge⟩

variable (instruction) in
/-- `encode` appends the string's bytes, marks it and brings the snapshot up to date. -/
theorem encode_spec (copy : instruction.type = .copy) {message : Message} {state : Encoding}
    {field cacheField : Field} (found : message.getField instruction.index = some field)
    (cached : state.cacheMessage.getField instruction.index = some cacheField)
    (typed : field.type = .string) (cacheTyped : cacheField.type = .string)
    (cacheWritable : cacheField.value.Writable) :
    ∃ updated : Field, updated.type = .string ∧ updated.value = field.value ∧
      DefinedIf field.value.Writable (instruction.encode message state)
        { cacheMessage := state.cacheMessage.setField instruction.index updated
          buffer := state.buffer ++ wire cacheField.value field.value
          pMap := if decide (field.value ≠ cacheField.value) then
              setpMap state.pMap instruction.index else state.pMap } := by
  have newValue := Field.getString_of_string typed
  have oldValue := Field.getString_of_string cacheTyped
  rw [newValue, oldValue]
  by_cases same : field.getString = cacheField.getString
  · refine ⟨cacheField, cacheTyped, ?_, .of_some ?_ ?_⟩
    · rw [oldValue, same]
    · simp [encode, found, cached, copy, same, wire, Message.setField_self cached]
    · rwa [same, ← oldValue]
  · refine ⟨cacheField.setString field.getString, ?_, Field.value_setString cacheTyped _, ?_⟩
    · rw [Field.type_setString, cacheTyped]
    · have written := writeString_definedIf field.getString
      simp only [encode, found, cached, copy, same, wire, ne_eq, not_false_eq_true, if_true,
        Option.bind_eq_bind, Option.bind_some]
      refine written.bind_some ?_
      simp [Message.modifyField_of_getField cached, same]

variable (instruction) in
theorem encodeFull_spec {message : Message} {field : Field}
    (found : message.getField instruction.index = some field) (typed : field.type = .string)
    (buffer : List UInt8) :
    DefinedIf field.value.Writable (instruction.encodeFull message buffer)
      (buffer ++ full field.value) := by
  rw [Field.getString_of_string typed]
  simp only [encodeFull, found, Option.bind_eq_bind, Option.bind_some, full]
  exact (writeString_definedIf field.getString).bind_some rfl

/-- A string is read back from its bytes, its length cut to 32 bits. -/
theorem outcome_decodeString {memory : Memory} {address : Int} {size : UInt64}
    {message cacheMessage : Message} {field cacheField : Field} {value : List UInt8}
    (held : memory.Holds address (stringBytes value))
    (room : (stringBytes value).length ≤ size.toNat) (small : size.toNat < 2147483648)
    (found : message.getField instruction.index = some field)
    (cached : cacheMessage.getField instruction.index = some cacheField) :
    (instruction.decodeString memory address size message cacheMessage).outcome = some
      ⟨(stringBytes value).length,
        message.setField instruction.index
          (field.setString (value.take (value.length % 2 ^ 32))),
        cacheMessage.setField instruction.index
          (cacheField.setString (value.take (value.length % 2 ^ 32)))⟩ := by
  have cut : (UInt32.ofNat value.length).toNat = value.length % 2 ^ 32 := UInt32.toNat_ofNat'
  have lengths : (stringBytes value).length =
      (writeVarint32 (UInt32.ofNat value.length)).length + value.length % 2 ^ 32 := by
    rw [stringBytes, List.length_append, List.length_take, cut, Nat.min_eq_left]
    exact Nat.mod_le _ _
  obtain ⟨lengthHeld, bodyHeld⟩ := Memory.holds_append.mp held
  have body : memory.read (address + (writeVarint32 (UInt32.ofNat value.length)).length)
      (value.length % 2 ^ 32) = value.take (value.length % 2 ^ 32) := by
    rw [Memory.Holds, List.length_take, cut, Nat.min_eq_left (Nat.mod_le _ _)] at bodyHeld
    exact bodyHeld
  have accepted : ¬(((writeVarint32 (UInt32.ofNat value.length)).length : Int) = -1 ∨
      (size.toNat : Int) < (writeVarint32 (UInt32.ofNat value.length)).length ∨
      size.toNat < value.length % 2 ^ 32) := by omega
  have total : toInt32 (((writeVarint32 (UInt32.ofNat value.length)).length : Int) +
      ((value.length % 2 ^ 32 : Nat) : Int)) = (stringBytes value).length := by
    rw [lengths]
    exact toInt32_natCast (by omega)
  simp only [decodeString, Traced.outcome_bind, readVarint32At_write lengthHeld, Option.bind_some,
    Option.getD_some, cut, accepted, if_false, Traced.outcome_emit, body, total,
    outcome_setBoth found cached]

theorem exchanges_full (value : List UInt8) (filled cached : FieldValue) :
    Exchanges instruction.decode instruction.index .string fullMap (stringBytes value) filled cached
      (FieldValue.text value).image (FieldValue.text value).image := by
  intro memory address size message cacheMessage field cacheField held room small found cachedField
    typed cacheTyped _ _
  refine ⟨_, _, by rw [Field.type_setString, typed], by rw [Field.type_setString, cacheTyped],
    Field.value_setString typed _, Field.value_setString cacheTyped _, ?_⟩
  rw [decode, if_pos rfl]
  exact outcome_decodeString held room small found cachedField

/-- A string encoded against a snapshot is read back, or taken from the peer's snapshot. -/
theorem exchanges_wire (copy : instruction.type = .copy) {pMap : UInt32}
    (partial_ : pMap &&& fullMap = 0) (old new : List UInt8) (filled : FieldValue)
    (present : marked pMap instruction.index = decide (FieldValue.text new ≠ .text old)) :
    Exchanges instruction.decode instruction.index .string pMap (wire (.text old) (.text new))
      filled (FieldValue.text old).image (FieldValue.text new).image
      (FieldValue.text new).image := by
  have notFull : pMap ≠ fullMap := by
    rintro rfl
    exact absurd partial_ (by decide)
  intro memory address size message cacheMessage field cacheField held room small found cachedField
    typed cacheTyped _ cacheValue
  by_cases same : new = old
  · subst same
    have absent : marked pMap instruction.index = false := by simpa using present
    have bytes : (FieldValue.text cacheField.getString) = (FieldValue.text new).image := by
      rw [← Field.getString_of_string cacheTyped, cacheValue]
    refine ⟨field.setString cacheField.getString, cacheField,
      by rw [Field.type_setString, typed], cacheTyped, ?_, cacheValue, ?_⟩
    · rw [Field.value_setString typed, bytes]
    · simp [decode, notFull, copy, absent, wire, cachedField,
        Message.modifyField_of_getField found, Message.setField_self cachedField]
  · have here : marked pMap instruction.index = true := by
      rw [present]
      simpa using same
    simp only [wire, ne_eq, same, not_false_eq_true, if_true] at held room ⊢
    refine ⟨_, _, by rw [Field.type_setString, typed], by rw [Field.type_setString, cacheTyped],
      Field.value_setString typed _, Field.value_setString cacheTyped _, ?_⟩
    simp only [decode, notFull, if_false, copy, here, if_true]
    exact outcome_decodeString held room small found cachedField

end FieldInstructionString

namespace FieldInstruction

/-- The field type that an instruction reads and writes. -/
def fieldType : FieldInstruction → FieldType
  | int64 _ => .int64
  | uint64 _ => .uint64
  | uint32 _ => .uint32
  | string _ => .string

/-- An integer reader fits its type, and a string is copied. -/
def Sound : FieldInstruction → Prop
  | int64 instruction => instruction.Sound
  | uint64 instruction => instruction.Sound
  | uint32 instruction => instruction.Sound
  | string instruction => instruction.type = .copy

/-- The bytes of a field in full. -/
def full : FieldInstruction → FieldValue → List UInt8
  | int64 _ => FieldInstructionInteger.full Int64
  | uint64 _ => FieldInstructionInteger.full UInt64
  | uint32 _ => FieldInstructionInteger.full UInt32
  | string _ => FieldInstructionString.full

/-- The bytes of a field encoded against a snapshot. -/
def wire : FieldInstruction → FieldValue → FieldValue → List UInt8
  | int64 instruction => instruction.wire
  | uint64 instruction => instruction.wire
  | uint32 instruction => instruction.wire
  | string _ => FieldInstructionString.wire

/-- Whether a difference is put on the wire even when it is zero. -/
def isDelta : FieldInstruction → Bool
  | int64 instruction => instruction.type = .delta
  | uint64 instruction => instruction.type = .delta
  | uint32 instruction => instruction.type = .delta
  | string _ => false

/-- Whether a field encoded against a snapshot is marked present. -/
def marks (instruction : FieldInstruction) (old new : FieldValue) : Bool :=
  instruction.isDelta || decide (new ≠ old)

/-- The value a decoder fills in: an unchanged copied integer leaves the field as it was. -/
def delivered : FieldInstruction → FieldValue → FieldValue → FieldValue → FieldValue
  | string _, _, _, new => new.image
  | instruction, filled, old, new => if instruction.marks old new then new else filled

/-- A value that a field of the instruction's type can have. -/
def Admits (instruction : FieldInstruction) (value : FieldValue) : Prop :=
  ∃ field : Field, field.type = instruction.fieldType ∧ field.value = value

theorem exists_toBits {α : Type} [FieldInteger α] [LawfulFieldInteger α] {value : FieldValue}
    (admitted : ∃ field : Field, field.type = FieldInteger.fieldType α ∧ field.value = value) :
    ∃ integer : α, value = .integer (FieldInteger.toBits integer) := by
  obtain ⟨field, typed, rfl⟩ := admitted
  exact ⟨_, LawfulFieldInteger.value_load field typed⟩

theorem writable_of_integer (α : Type) [FieldInteger α] [LawfulFieldInteger α] {field : Field}
    (typed : field.type = FieldInteger.fieldType α) : field.value.Writable := by
  obtain ⟨integer, isInteger⟩ := exists_toBits (α := α) ⟨field, typed, rfl⟩
  rw [isInteger]
  trivial

/-- `encode` depends on the values of the field and of its snapshot only. -/
theorem encode_spec {instruction : FieldInstruction} (sound : instruction.Sound)
    {message : Message} {state : Encoding} {field cacheField : Field}
    (found : message.getField instruction.index = some field)
    (cached : state.cacheMessage.getField instruction.index = some cacheField)
    (typed : field.type = instruction.fieldType)
    (cacheTyped : cacheField.type = instruction.fieldType)
    (cacheWritable : cacheField.value.Writable) :
    ∃ updated : Field, updated.type = instruction.fieldType ∧ updated.value = field.value ∧
      DefinedIf field.value.Writable (instruction.encode message state)
        { cacheMessage := state.cacheMessage.setField instruction.index updated
          buffer := state.buffer ++ instruction.wire cacheField.value field.value
          pMap := if instruction.marks cacheField.value field.value then
              setpMap state.pMap instruction.index else state.pMap } := by
  cases instruction with
  | int64 instruction =>
      obtain ⟨updated, type, value, spec⟩ := instruction.encode_spec found cached typed cacheTyped
      exact ⟨updated, type, value, .of_some spec (writable_of_integer Int64 typed)⟩
  | uint64 instruction =>
      obtain ⟨updated, type, value, spec⟩ := instruction.encode_spec found cached typed cacheTyped
      exact ⟨updated, type, value, .of_some spec (writable_of_integer UInt64 typed)⟩
  | uint32 instruction =>
      obtain ⟨updated, type, value, spec⟩ := instruction.encode_spec found cached typed cacheTyped
      exact ⟨updated, type, value, .of_some spec (writable_of_integer UInt32 typed)⟩
  | string instruction =>
      exact instruction.encode_spec sound found cached typed cacheTyped cacheWritable

/-- `encode` in full depends on the field's value only. -/
theorem encodeFull_spec {instruction : FieldInstruction} {message : Message} {field : Field}
    (found : message.getField instruction.index = some field)
    (typed : field.type = instruction.fieldType) (buffer : List UInt8) :
    DefinedIf field.value.Writable (instruction.encodeFull message buffer)
      (buffer ++ instruction.full field.value) := by
  cases instruction with
  | int64 instruction =>
      exact .of_some (instruction.encodeFull_spec found typed buffer)
        (writable_of_integer Int64 typed)
  | uint64 instruction =>
      exact .of_some (instruction.encodeFull_spec found typed buffer)
        (writable_of_integer UInt64 typed)
  | uint32 instruction =>
      exact .of_some (instruction.encodeFull_spec found typed buffer)
        (writable_of_integer UInt32 typed)
  | string instruction => exact instruction.encodeFull_spec found typed buffer

theorem exists_text {value : FieldValue}
    (admitted : ∃ field : Field, field.type = .string ∧ field.value = value) :
    ∃ bytes, value = .text bytes := by
  obtain ⟨field, typed, rfl⟩ := admitted
  exact ⟨_, Field.getString_of_string typed⟩

/-- A field written in full arrives in the message and in the snapshot. -/
theorem exchanges_full {instruction : FieldInstruction} {new : FieldValue}
    (admitted : instruction.Admits new) (filled cached : FieldValue) :
    Exchanges instruction.decode instruction.index instruction.fieldType fullMap
      (instruction.full new) filled cached new.image new.image := by
  cases instruction with
  | int64 instruction =>
      obtain ⟨value, rfl⟩ := exists_toBits (α := Int64) admitted
      exact FieldInstructionInteger.exchanges_full value filled cached
  | uint64 instruction =>
      obtain ⟨value, rfl⟩ := exists_toBits (α := UInt64) admitted
      exact FieldInstructionInteger.exchanges_full value filled cached
  | uint32 instruction =>
      obtain ⟨value, rfl⟩ := exists_toBits (α := UInt32) admitted
      exact FieldInstructionInteger.exchanges_full value filled cached
  | string instruction =>
      obtain ⟨value, rfl⟩ := exists_text admitted
      exact FieldInstructionString.exchanges_full value filled cached

/-- A field encoded against a snapshot brings the peer's snapshot up to date. -/
theorem exchanges_wire {instruction : FieldInstruction} (sound : instruction.Sound)
    {old new : FieldValue} (oldAdmitted : instruction.Admits old)
    (newAdmitted : instruction.Admits new) {pMap : UInt32} (partial_ : pMap &&& fullMap = 0)
    (present : marked pMap instruction.index = instruction.marks old new) (filled : FieldValue) :
    Exchanges instruction.decode instruction.index instruction.fieldType pMap
      (instruction.wire old new) filled old.image (instruction.delivered filled old new)
      new.image := by
  cases instruction with
  | int64 instruction =>
      obtain ⟨before, rfl⟩ := exists_toBits (α := Int64) oldAdmitted
      obtain ⟨after, rfl⟩ := exists_toBits (α := Int64) newAdmitted
      exact FieldInstructionInteger.exchanges_wire sound partial_ before after filled present
  | uint64 instruction =>
      obtain ⟨before, rfl⟩ := exists_toBits (α := UInt64) oldAdmitted
      obtain ⟨after, rfl⟩ := exists_toBits (α := UInt64) newAdmitted
      exact FieldInstructionInteger.exchanges_wire sound partial_ before after filled present
  | uint32 instruction =>
      obtain ⟨before, rfl⟩ := exists_toBits (α := UInt32) oldAdmitted
      obtain ⟨after, rfl⟩ := exists_toBits (α := UInt32) newAdmitted
      exact FieldInstructionInteger.exchanges_wire sound partial_ before after filled present
  | string instruction =>
      obtain ⟨before, rfl⟩ := exists_text oldAdmitted
      obtain ⟨after, rfl⟩ := exists_text newAdmitted
      exact FieldInstructionString.exchanges_wire sound partial_ before after filled present

end FieldInstruction

end FlashForwarder
