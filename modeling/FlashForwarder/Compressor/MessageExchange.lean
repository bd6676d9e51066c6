import FlashForwarder.Compressor.FieldExchange
import FlashForwarder.Compressor.Template
import Mathlib.Data.Nat.Bitwise

/-!
# One message on the wire

The instructions of a template run over the fields of a message in order.  What they write, the
presence map they leave and what the peer reads are given by the values alone.
-/

namespace FlashForwarder

open WireFormat

/-! ## Presence bits -/

private theorem toNat_bit {bit : UInt16} (small : bit.toNat < 32) :
    ((1 : UInt32) <<< bit.toUInt32).toNat = 2 ^ bit.toNat := by
  have bound : 2 ^ bit.toNat < 2 ^ 32 := Nat.pow_lt_pow_right (by decide) small
  rw [UInt32.toNat_shiftLeft, UInt16.toNat_toUInt32, Nat.mod_eq_of_lt small, Nat.shiftLeft_eq,
    UInt32.toNat_one, Nat.one_mul, Nat.mod_eq_of_lt bound]

theorem marked_eq_testBit (pMap : UInt32) {bit : UInt16} (small : bit.toNat < 32) :
    marked pMap bit = pMap.toNat.testBit bit.toNat := by
  have masked : (pMap &&& ((1 : UInt32) <<< bit.toUInt32)).toNat =
      (pMap.toNat.testBit bit.toNat).toNat * 2 ^ bit.toNat := by
    rw [UInt32.toNat_and, toNat_bit small, Nat.and_two_pow]
  simp only [marked, ne_eq, ← UInt32.toNat_inj, masked]
  cases pMap.toNat.testBit bit.toNat <;> simp

theorem marked_setpMap (pMap : UInt32) {bit other : UInt16} (small : bit.toNat < 32)
    (otherSmall : other.toNat < 32) :
    marked (setpMap pMap bit) other = (marked pMap other || decide (bit = other)) := by
  rw [marked_eq_testBit _ otherSmall, marked_eq_testBit _ otherSmall, setpMap, UInt32.toNat_or,
    toNat_bit small, Nat.testBit_or, Nat.testBit_two_pow]
  congr 1
  simp [UInt16.toNat_inj]

theorem and_fullMap_eq_zero (pMap : UInt32) : pMap &&& fullMap = 0 ↔ marked pMap 31 = false := by
  simp [marked, fullMap]

/-! ## Lists of instructions -/

/-- The instructions are bound to successive fields. -/
def IndexedFrom : Nat → List FieldInstruction → Prop
  | _, [] => True
  | first, instruction :: instructions =>
      instruction.index.toNat = first ∧ IndexedFrom (first + 1) instructions

/-- The bytes of a message's fields in full. -/
def fullFields : List FieldInstruction → List FieldValue → List UInt8
  | instruction :: instructions, new :: news => instruction.full new ++ fullFields instructions news
  | _, _ => []

/-- The bytes of a message's fields encoded against a snapshot. -/
def wireFields : List FieldInstruction → List FieldValue → List FieldValue → List UInt8
  | instruction :: instructions, old :: olds, new :: news =>
      instruction.wire old new ++ wireFields instructions olds news
  | _, _, _ => []

/-- The presence map of a message's fields encoded against a snapshot. -/
def markFields (pMap : UInt32) :
    List FieldInstruction → List FieldValue → List FieldValue → UInt32
  | instruction :: instructions, old :: olds, new :: news =>
      markFields (if instruction.marks old new then setpMap pMap instruction.index else pMap)
        instructions olds news
  | _, _, _ => pMap

/-- The values that a decoder fills in from fields encoded against a snapshot. -/
def deliveredFields : List FieldInstruction → List FieldValue → List FieldValue →
    List FieldValue → List FieldValue
  | instruction :: instructions, filled :: fills, old :: olds, new :: news =>
      instruction.delivered filled old new :: deliveredFields instructions fills olds news
  | _, _, _, _ => []

/-- A message of the instructions' types. -/
structure Message.Fits (instructions : List FieldInstruction) (message : Message) : Prop where
  /-- Each field has the type of its instruction. -/
  types : message.types = instructions.map FieldInstruction.fieldType
  /-- The field count is exact. -/
  counted : message.Counted

namespace FieldInstruction

/-- Lists of values that the instructions' fields can have. -/
abbrev AdmitAll (instructions : List FieldInstruction) (values : List FieldValue) : Prop :=
  List.Forall₂ Admits instructions values

theorem admitAll_of_types {instructions : List FieldInstruction} {fields : List Field}
    (types : fields.map Field.type = instructions.map fieldType) :
    AdmitAll instructions (fields.map Field.value) := by
  induction instructions generalizing fields with
  | nil =>
      obtain rfl : fields = [] := by simpa using types
      exact .nil
  | cons instruction instructions ih =>
      cases fields with
      | nil => simp at types
      | cons field fields =>
          simp only [List.map_cons, List.cons.injEq] at types
          exact .cons ⟨field, types.1, rfl⟩ (ih types.2)

end FieldInstruction

/-- A message that `encode` can write. -/
def Message.Writable (message : Message) : Prop := ∀ field ∈ message.fields, field.value.Writable

theorem Message.writable_iff {message : Message} :
    message.Writable ↔ ∀ value ∈ message.values, value.Writable := by
  simp [Writable, values]

/-! ## Writing -/

private theorem setField_append {message : Message} {front : List Field} {field : Field}
    {back : List Field} (split : message.fields = front ++ field :: back) {index : UInt16}
    (at_ : index.toNat = front.length) (updated : Field) :
    (message.setField index updated).fields = front ++ updated :: back := by
  rw [Message.setField, split, at_]
  simp

/-- The instructions append their bytes, mark their fields and bring the snapshot up to date. -/
theorem encodeFields_spec {instructions : List FieldInstruction} {message : Message}
    (state : Encoding) (before front : List Field) {after back : List Field}
    (indexed : IndexedFrom before.length instructions) (sameLength : front.length = before.length)
    (sound : ∀ instruction ∈ instructions, instruction.Sound)
    (counted : message.Counted) (fields : message.fields = before ++ after)
    (types : after.map Field.type = instructions.map FieldInstruction.fieldType)
    (cacheCounted : state.cacheMessage.Counted)
    (cacheFields : state.cacheMessage.fields = front ++ back)
    (cacheTypes : back.map Field.type = instructions.map FieldInstruction.fieldType)
    (cacheWritable : ∀ field ∈ back, field.value.Writable) :
    ∃ updated : List Field,
      updated.map Field.type = instructions.map FieldInstruction.fieldType ∧
      updated.map Field.value = after.map Field.value ∧
      DefinedIf (∀ field ∈ after, field.value.Writable)
        (instructions.foldlM (fun state instruction => instruction.encode message state) state)
        { cacheMessage := { state.cacheMessage with fields := front ++ updated }
          buffer := state.buffer ++
            wireFields instructions (back.map Field.value) (after.map Field.value)
          pMap := markFields state.pMap instructions (back.map Field.value)
            (after.map Field.value) } := by
  induction instructions generalizing before front after back state with
  | nil =>
      obtain rfl : after = [] := by simpa using types
      obtain rfl : back = [] := by simpa using cacheTypes
      refine ⟨[], rfl, rfl, .of_some ?_ (by simp)⟩
      simp [wireFields, markFields, ← cacheFields]
  | cons instruction instructions ih =>
      obtain ⟨index, indexed⟩ := indexed
      obtain _ | ⟨field, after⟩ := after
      · simp at types
      obtain _ | ⟨cacheField, back⟩ := back
      · simp at cacheTypes
      simp only [List.map_cons, List.cons.injEq] at types cacheTypes
      rw [List.forall_mem_cons] at cacheWritable
      have found := Message.getField_of_counted counted fields index
      have cached := Message.getField_of_counted cacheCounted cacheFields
        (index.trans sameLength.symm)
      obtain ⟨updated, updatedType, updatedValue, spec⟩ := FieldInstruction.encode_spec
        (sound instruction (by simp)) found cached types.1 cacheTypes.1 cacheWritable.1
      have changed := setField_append cacheFields (index.trans sameLength.symm) updated
      have stillCounted : (state.cacheMessage.setField instruction.index updated).Counted := by
        rw [Message.Counted, changed, Message.setField]
        simpa [Message.Counted, cacheFields] using cacheCounted
      obtain ⟨rest, restTypes, restValues, later⟩ := ih
        ⟨state.cacheMessage.setField instruction.index updated,
          state.buffer ++ instruction.wire cacheField.value field.value,
          if instruction.marks cacheField.value field.value then
            setpMap state.pMap instruction.index else state.pMap⟩
        (before ++ [field]) (front ++ [updated]) (by simpa using indexed) (by simp [sameLength])
        (fun other member => sound other (by simp [member])) (by simp [fields]) types.2
        stillCounted (by simp [changed]) cacheTypes.2 cacheWritable.2
      refine ⟨updated :: rest, by simp [updatedType, restTypes], by simp [updatedValue, restValues],
        ?_⟩
      rw [List.forall_mem_cons, List.foldlM_cons]
      simp only [List.map_cons, wireFields, markFields, Message.setField, List.append_assoc,
        List.singleton_append] at later ⊢
      exact spec.bind later

theorem encodeFullFields_spec {instructions : List FieldInstruction} {message : Message}
    (before : List Field) {after : List Field} (buffer : List UInt8)
    (indexed : IndexedFrom before.length instructions)
    (counted : message.Counted) (fields : message.fields = before ++ after)
    (types : after.map Field.type = instructions.map FieldInstruction.fieldType) :
    DefinedIf (∀ field ∈ after, field.value.Writable)
      (instructions.foldlM (fun buffer instruction => instruction.encodeFull message buffer) buffer)
      (buffer ++ fullFields instructions (after.map Field.value)) := by
  induction instructions generalizing before after buffer with
  | nil =>
      obtain rfl : after = [] := by simpa using types
      exact .of_some (by simp [fullFields]) (by simp)
  | cons instruction instructions ih =>
      obtain ⟨index, indexed⟩ := indexed
      obtain _ | ⟨field, after⟩ := after
      · simp at types
      simp only [List.map_cons, List.cons.injEq] at types
      have found := Message.getField_of_counted counted fields index
      have here := FieldInstruction.encodeFull_spec found types.1 buffer
      have later := ih (before ++ [field])
        (buffer ++ instruction.full field.value) (by simpa using indexed) (by simp [fields]) types.2
      rw [List.forall_mem_cons, List.foldlM_cons]
      simp only [List.map_cons, fullFields, ← List.append_assoc]
      exact here.bind later

/-! ## Reading -/

/-- Each instruction's bytes exchange its own field. -/
inductive ExchangesAll (pMap : UInt32) : List FieldInstruction → List UInt8 →
    List FieldValue → List FieldValue → List FieldValue → List FieldValue → Prop
  | nil : ExchangesAll pMap [] [] [] [] [] []
  | cons {instruction : FieldInstruction} {instructions : List FieldInstruction}
      {bytes rest : List UInt8} {filled cached filled' cached' : FieldValue}
      {fills caches fills' caches' : List FieldValue} :
      Exchanges instruction.decode instruction.index instruction.fieldType pMap bytes filled cached
        filled' cached' →
      ExchangesAll pMap instructions rest fills caches fills' caches' →
      ExchangesAll pMap (instruction :: instructions) (bytes ++ rest) (filled :: fills)
        (cached :: caches) (filled' :: fills') (cached' :: caches')

/-- The loop over the instructions reads every field and takes exactly its bytes. -/
theorem decodeFields_spec {pMap : UInt32} {instructions : List FieldInstruction}
    {bytes : List UInt8} {fills caches fills' caches' : List FieldValue}
    (exchanges : ExchangesAll pMap instructions bytes fills caches fills' caches')
    {memory : Memory} (cursor : Template.Cursor) (before front : List Field)
    {after back : List Field}
    (indexed : IndexedFrom before.length instructions) (sameLength : front.length = before.length)
    (held : memory.Holds cursor.begin_ bytes) (room : (bytes.length : Int) ≤ cursor.bufferSize)
    (small : cursor.bufferSize < 2147483648) (positive : 0 ≤ cursor.consume)
    (bounded : cursor.consume + cursor.bufferSize < 2147483648)
    (counted : cursor.message.Counted) (fields : cursor.message.fields = before ++ after)
    (types : after.map Field.type = instructions.map FieldInstruction.fieldType)
    (values : after.map Field.value = fills)
    (cacheCounted : cursor.cacheMessage.Counted)
    (cacheFields : cursor.cacheMessage.fields = front ++ back)
    (cacheTypes : back.map Field.type = instructions.map FieldInstruction.fieldType)
    (cacheValues : back.map Field.value = caches) :
    ∃ filled updated : List Field,
      filled.map Field.type = instructions.map FieldInstruction.fieldType ∧
      filled.map Field.value = fills' ∧
      updated.map Field.type = instructions.map FieldInstruction.fieldType ∧
      updated.map Field.value = caches' ∧
      (Template.decodeFields memory pMap instructions cursor).outcome = some
        ⟨cursor.consume + bytes.length, { cursor.message with fields := before ++ filled },
          { cursor.cacheMessage with fields := front ++ updated }⟩ := by
  induction exchanges generalizing cursor before after front back with
  | nil =>
      obtain rfl : after = [] := by simpa using types
      obtain rfl : back = [] := by simpa using cacheTypes
      refine ⟨[], [], rfl, rfl, rfl, rfl, ?_⟩
      simp [Template.decodeFields, ← fields, ← cacheFields]
  | @cons instruction instructions bytes rest _ _ _ _ _ _ _ _ exchange _ ih =>
      obtain ⟨index, indexed⟩ := indexed
      obtain _ | ⟨field, after⟩ := after
      · simp at types
      obtain _ | ⟨cacheField, back⟩ := back
      · simp at cacheTypes
      simp only [List.map_cons, List.cons.injEq] at types cacheTypes values cacheValues
      obtain ⟨held, restHeld⟩ := Memory.holds_append.mp held
      rw [List.length_append] at room
      have size : (UInt64.ofNat cursor.bufferSize.toNat).toNat = cursor.bufferSize.toNat := by
        rw [UInt64.toNat_ofNat']
        exact Nat.mod_eq_of_lt (by omega)
      obtain ⟨field', cacheField', type', cacheType', value', cacheValue', outcome⟩ :=
        exchange memory
        cursor.begin_ (UInt64.ofNat cursor.bufferSize.toNat) cursor.message cursor.cacheMessage
        field cacheField held (by omega) (by omega)
        (Message.getField_of_counted counted fields index)
        (Message.getField_of_counted cacheCounted cacheFields (index.trans sameLength.symm))
        types.1 cacheTypes.1 values.1 cacheValues.1
      have changed := setField_append fields index field'
      have cacheChanged := setField_append cacheFields (index.trans sameLength.symm) cacheField'
      have left : toInt32 (cursor.bufferSize - bytes.length) = cursor.bufferSize - bytes.length :=
        toInt32_of_range (by omega) (by omega)
      have taken : toInt32 (cursor.consume + bytes.length) = cursor.consume + bytes.length :=
        toInt32_of_range (by omega) (by omega)
      obtain ⟨filled, updated, filledTypes, filledValues, updatedTypes, updatedValues, later⟩ := ih
        ⟨cursor.begin_ + bytes.length, cursor.bufferSize - bytes.length,
          cursor.consume + bytes.length, cursor.message.setField instruction.index field',
          cursor.cacheMessage.setField instruction.index cacheField'⟩
        (before ++ [field']) (front ++ [cacheField'])
        (by simpa using indexed) (by simp [sameLength]) restHeld
        (by simp only; omega) (by simp only; omega) (by simp only; omega) (by simp only; omega)
        (by
          simp only
          rw [Message.Counted, changed, Message.setField]
          simpa [Message.Counted, fields] using counted)
        (by simp [changed]) types.2 values.2
        (by
          simp only
          rw [Message.Counted, cacheChanged, Message.setField]
          simpa [Message.Counted, cacheFields] using cacheCounted)
        (by simp [cacheChanged]) cacheTypes.2 cacheValues.2
      refine ⟨field' :: filled, cacheField' :: updated, by simp [type', filledTypes],
        by simp [value', filledValues], by simp [cacheType', updatedTypes],
        by simp [cacheValue', updatedValues], ?_⟩
      have going : ¬cursor.bufferSize < 0 := by omega
      have accepted : ¬((bytes.length : Int) = -1) := by omega
      simp only [Template.decodeFields, going, if_false, Traced.outcome_bind, outcome,
        Option.bind_some, accepted, Traced.outcome_emit, left, taken, later]
      simp [Message.setField, Int.add_assoc]

/-- Fields written in full are exchanged in full. -/
theorem exchangesAll_full {instructions : List FieldInstruction} (fills : List FieldValue)
    {caches news : List FieldValue}
    (admitted : FieldInstruction.AdmitAll instructions news)
    (fillCount : fills.length = instructions.length)
    (cacheCount : caches.length = instructions.length) :
    ExchangesAll fullMap instructions (fullFields instructions news) fills caches
      (news.map FieldValue.image) (news.map FieldValue.image) := by
  induction admitted generalizing fills caches with
  | nil =>
      obtain rfl : fills = [] := by simpa using fillCount
      obtain rfl : caches = [] := by simpa using cacheCount
      exact .nil
  | cons here _ ih =>
      obtain _ | ⟨filled, fills⟩ := fills
      · simp at fillCount
      obtain _ | ⟨cached, caches⟩ := caches
      · simp at cacheCount
      exact .cons (FieldInstruction.exchanges_full here filled cached)
        (ih _ (by simpa using fillCount) (by simpa using cacheCount))

/-- Later instructions leave the bits of earlier fields alone. -/
theorem marked_markFields {instructions : List FieldInstruction} {first : Nat}
    (indexed : IndexedFrom first instructions) (few : first + instructions.length ≤ 32)
    (olds news : List FieldValue) (pMap : UInt32) {bit : UInt16} (small : bit.toNat < 32)
    (away : bit.toNat < first ∨ first + instructions.length ≤ bit.toNat) :
    marked (markFields pMap instructions olds news) bit = marked pMap bit := by
  induction instructions generalizing first pMap olds news with
  | nil => simp [markFields]
  | cons instruction instructions ih =>
      obtain ⟨index, indexed⟩ := indexed
      rw [List.length_cons] at few away
      obtain _ | ⟨old, olds⟩ := olds
      · simp [markFields]
      obtain _ | ⟨new, news⟩ := news
      · simp [markFields]
      have other : instruction.index ≠ bit := by
        rintro rfl
        omega
      rw [markFields, ih indexed (by omega) _ _ _ (by omega)]
      split
      · simp [marked_setpMap pMap (show instruction.index.toNat < 32 by omega) small, other]
      · rfl

/-- Every field of a message is marked where it is sent. -/
def Present (pMap : UInt32) :
    List FieldInstruction → List FieldValue → List FieldValue → Prop
  | instruction :: instructions, old :: olds, new :: news =>
      marked pMap instruction.index = instruction.marks old new ∧
        Present pMap instructions olds news
  | _, _, _ => True

/-- The presence map of a message says which of its at most 31 fields are sent, and that it is not
in full. -/
theorem present_markFields {instructions : List FieldInstruction} {first : Nat}
    (indexed : IndexedFrom first instructions) (few : first + instructions.length ≤ 31)
    (olds news : List FieldValue) (pMap : UInt32)
    (unmarked : ∀ bit : UInt16, first ≤ bit.toNat → bit.toNat < 32 → marked pMap bit = false) :
    Present (markFields pMap instructions olds news) instructions olds news ∧
      markFields pMap instructions olds news &&& fullMap = 0 := by
  have top : (31 : UInt16).toNat = 31 := rfl
  refine ⟨?_, ?_⟩
  · induction instructions generalizing first olds news pMap with
    | nil => trivial
    | cons instruction instructions ih =>
        obtain _ | ⟨old, olds⟩ := olds
        · trivial
        obtain _ | ⟨new, news⟩ := news
        · trivial
        obtain ⟨index, indexed⟩ := indexed
        rw [List.length_cons] at few
        have small : instruction.index.toNat < 32 := by omega
        refine ⟨?_, ih indexed (by omega) olds news _ ?_⟩
        · rw [markFields, marked_markFields indexed (by omega) _ _ _ small (by omega)]
          split
          · rename_i marks
            rw [marked_setpMap pMap small small, marks]
            simp
          · rename_i silent
            rw [unmarked _ (by omega) small, Bool.eq_false_iff.mpr silent]
        · intro bit above bound
          split
          · rw [marked_setpMap pMap small bound, unmarked bit (by omega) bound]
            have apart : instruction.index ≠ bit := by
              rintro rfl
              omega
            simp [apart]
          · exact unmarked bit (by omega) bound
  · rw [and_fullMap_eq_zero, marked_markFields indexed (by omega) _ _ _ (by decide) (by omega)]
    exact unmarked 31 (by omega) (by decide)

/-- Fields encoded against a snapshot are exchanged against its image. -/
theorem exchangesAll_wire {instructions : List FieldInstruction}
    (fills : List FieldValue) {olds news : List FieldValue} {pMap : UInt32}
    (sound : ∀ instruction ∈ instructions, instruction.Sound)
    (present : Present pMap instructions olds news) (partial_ : pMap &&& fullMap = 0)
    (oldAdmitted : FieldInstruction.AdmitAll instructions olds)
    (newAdmitted : FieldInstruction.AdmitAll instructions news)
    (fillCount : fills.length = instructions.length) :
    ExchangesAll pMap instructions (wireFields instructions olds news) fills
      (olds.map FieldValue.image) (deliveredFields instructions fills olds news)
      (news.map FieldValue.image) := by
  induction instructions generalizing fills olds news with
  | nil =>
      obtain rfl : fills = [] := by simpa using fillCount
      cases oldAdmitted
      cases newAdmitted
      exact .nil
  | cons instruction instructions ih =>
      obtain _ | ⟨filled, fills⟩ := fills
      · simp at fillCount
      obtain _ | @⟨_, old, _, olds, oldHere, oldRest⟩ := oldAdmitted
      obtain _ | @⟨_, new, _, news, newHere, newRest⟩ := newAdmitted
      exact .cons (FieldInstruction.exchanges_wire (sound instruction (by simp)) oldHere newHere
        partial_ present.1 filled)
        (ih _ (fun other member => sound other (by simp [member])) present.2 oldRest newRest
          (by simpa using fillCount))

/-! ## Whole messages -/

/-- The values of a template's message: zero and the empty string. -/
def defaults (instructions : List FieldInstruction) : List FieldValue :=
  instructions.map fun instruction => (Field.new instruction.fieldType).value

namespace Template

/-- At most 31 fields, each with an instruction of its own type, and a message of default
values. -/
structure WellTyped (template : Template) : Prop where
  /-- There is a presence bit for each field. -/
  few : template.instructions.length ≤ 31
  /-- Instruction `i` is bound to field `i`. -/
  indexed : IndexedFrom 0 template.instructions
  /-- Integers are copied or sent as differences, strings are copied. -/
  sound : ∀ instruction ∈ template.instructions, instruction.Sound
  /-- The template's message has fields of the instructions' types, as constructed. -/
  default : ∃ message, template.inputMessage = some message ∧ message.Counted ∧
    message.fields =
      template.instructions.map fun instruction => Field.new instruction.fieldType

/-- A template's presence map says which fields are sent. -/
theorem WellTyped.present {template : Template} (typed : template.WellTyped)
    (olds news : List FieldValue) :
    Present (markFields 0 template.instructions olds news) template.instructions olds news ∧
      markFields 0 template.instructions olds news &&& fullMap = 0 :=
  present_markFields typed.indexed (by simpa using typed.few) olds news 0
    fun bit _ _ => by simp [marked]

/-- The bytes of a message in full. -/
def full (template : Template) (index : UInt64) (news : List FieldValue) : List UInt8 :=
  template.header index ++ (hostUint32 fullMap ++ fullFields template.instructions news)

/-- The bytes of a message encoded against a snapshot. -/
def wire (template : Template) (index : UInt64) (olds news : List FieldValue) : List UInt8 :=
  template.header index ++ (hostUint32 (markFields 0 template.instructions olds news) ++
    wireFields template.instructions olds news)

variable {template : Template}

theorem storePMap_append {buffer rest : List UInt8} (small : buffer.length < 2147483648)
    (pMap : UInt32) :
    storePMap (buffer ++ [0, 0, 0, 0] ++ rest) (toInt32 buffer.length) pMap =
      some (buffer ++ (hostUint32 pMap ++ rest)) := by
  rw [toInt32_natCast small, storePMap, if_pos (by simp), Int.toNat_natCast]
  have beyond : (buffer ++ ([0, 0, 0, 0] ++ rest)).drop (buffer.length + 4) = rest := by
    rw [List.drop_append]
    simp
  simp only [List.append_assoc, List.take_left, beyond]

/-- `encode` appends a message's bytes and brings the snapshot up to date. -/
theorem encode_spec (typed : template.WellTyped) {message cacheMessage : Message}
    (fits : message.Fits template.instructions)
    (cacheFits : cacheMessage.Fits template.instructions) (cacheWritable : cacheMessage.Writable)
    {buffer : List UInt8}
    (small : (buffer ++ template.header cacheMessage.index).length < 2147483648) :
    ∃ updated : Message, updated.Fits template.instructions ∧
      updated.index = cacheMessage.index ∧ updated.values = message.values ∧
      DefinedIf message.Writable (template.encode message cacheMessage buffer)
        (updated,
          buffer ++ template.wire cacheMessage.index cacheMessage.values message.values) := by
  obtain ⟨updated, types, values, loop⟩ := encodeFields_spec
    ⟨cacheMessage, buffer ++ template.header cacheMessage.index ++ [0, 0, 0, 0], 0⟩ [] []
    typed.indexed rfl typed.sound fits.counted rfl fits.types cacheFits.counted rfl cacheFits.types
    cacheWritable
  have lengths : updated.length = cacheMessage.fields.length := by
    have := congrArg List.length (types.trans cacheFits.types.symm)
    simpa [Message.types] using this
  refine ⟨{ cacheMessage with fields := updated }, ⟨types, ?_⟩, rfl, values, ?_⟩
  · rw [Message.Counted, lengths]
    exact cacheFits.counted
  · refine loop.bind_some ?_
    rw [storePMap_append small, Option.bind_eq_bind, Option.bind_some, wire,
      ← List.append_assoc buffer (template.header cacheMessage.index)]
    rfl

theorem encodeFull_spec (typed : template.WellTyped) {message : Message}
    (fits : message.Fits template.instructions) {buffer : List UInt8}
    (small : (buffer ++ template.header message.index).length < 2147483648) :
    DefinedIf message.Writable (template.encodeFull message buffer)
      (buffer ++ template.full message.index message.values) := by
  have loop := encodeFullFields_spec []
    (buffer ++ template.header message.index ++ [0, 0, 0, 0]) typed.indexed fits.counted rfl
    fits.types
  refine loop.bind_some ?_
  rw [storePMap_append small, full, List.append_assoc, Message.values]

/-- `decode` fills a message from a presence map and the bytes behind it. -/
theorem decode_spec (typed : template.WellTyped) {pMap : UInt32} {bytes : List UInt8}
    {caches fills' caches' : List FieldValue}
    (exchanges : ExchangesAll pMap template.instructions bytes (defaults template.instructions)
      caches fills' caches')
    {memory : Memory} {buffer : Int} {size : UInt64} {cacheMessage : Message}
    (held : memory.Holds buffer (hostUint32 pMap ++ bytes))
    (room : 4 + bytes.length ≤ size.toNat) (small : size.toNat < 2147483648)
    (cacheFits : cacheMessage.Fits template.instructions)
    (cacheValues : cacheMessage.values = caches)
    (messages : List Message) :
    ∃ filled updated : Message, filled.Fits template.instructions ∧ filled.values = fills' ∧
      updated.Fits template.instructions ∧ updated.values = caches' ∧
      (template.decode memory buffer size messages cacheMessage).outcome = some
        ⟨(4 + bytes.length : Nat), messages ++ [filled], updated⟩ := by
  obtain ⟨message, isMessage, counted, fields⟩ := typed.default
  obtain ⟨mapHeld, bytesHeld⟩ := Memory.holds_append.mp held
  have loaded : getUint32 (memory.read buffer 4).reverse = pMap := by
    have bytes : memory.read buffer 4 = hostUint32 pMap := mapHeld
    rw [bytes, hostUint32, List.reverse_reverse]
    simpa using getUint32_putUint32 pMap []
  have total : toInt32 (size.toNat : Int) = size.toNat := toInt32_natCast small
  have left : toInt32 ((size.toNat : Int) - 4) = size.toNat - 4 :=
    toInt32_of_range (by omega) (by omega)
  obtain ⟨filled, updated, filledTypes, filledValues, updatedTypes, updatedValues, loop⟩ :=
    decodeFields_spec exchanges ⟨buffer + 4, size.toNat - 4, 4, message, cacheMessage⟩ [] []
      typed.indexed rfl
      bytesHeld (by simp only; omega) (by simp only; omega) (by simp) (by simp only; omega) counted
      rfl (by simp [fields, Function.comp_def]) (by simp [fields, defaults, Function.comp_def])
      cacheFits.counted rfl cacheFits.types cacheValues
  have filledLength : filled.length = message.fields.length := by
    have := congrArg List.length filledTypes
    simpa [fields] using this
  have updatedLength : updated.length = cacheMessage.fields.length := by
    have := congrArg List.length (updatedTypes.trans cacheFits.types.symm)
    simpa [Message.types] using this
  refine ⟨{ message with fields := filled }, { cacheMessage with fields := updated },
    ⟨filledTypes, ?_⟩, filledValues, ⟨updatedTypes, ?_⟩, updatedValues, ?_⟩
  · rw [Message.Counted, filledLength]
    exact counted
  · rw [Message.Counted, updatedLength]
    exact cacheFits.counted
  · have nonempty : size ≠ 0 := by
      rintro rfl
      simp at room
    simp only [decode, nonempty, if_false, Traced.outcome_bind, Traced.outcome_emit,
      Option.bind_some, loaded, total, left, isMessage, Traced.ofOption_some, Traced.outcome_pure,
      loop]
    simp

end Template

end FlashForwarder
