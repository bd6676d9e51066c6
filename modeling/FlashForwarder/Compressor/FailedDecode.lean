import FlashForwarder.Compressor.SnapshotTable

/-!
# What a failed decode leaves behind

`decode` stores each field into its snapshot as it goes and puts out each message as it is done.
Where it stops before the end of the buffer, all of that stays, except that a failing field clears
the output vector.
-/

namespace FlashForwarder

open WireFormat ProgramLoop Traced

/-! ## What a field stores -/

section

variable (memory : Memory) (buffer : Int) (size : UInt64) (cacheMessage : Message) (pMap : UInt32)

/-- The change that an integer on the wire makes to its field in the snapshot, if it is accepted. -/
def FieldInstructionInteger.stored {α : Type} [FieldInteger α]
    (instruction : FieldInstructionInteger α) : Option (Field → Field) :=
  if pMap &&& fullMap ≠ 0 then
    if size.toNat < FieldInteger.size α then none
    else
      let value : α := FieldInteger.ofBits (hostValue (memory.read buffer (FieldInteger.size α)))
      some (·.setInteger value)
  else
    match instruction.type with
    | .copy =>
        if marked pMap instruction.index then
          (instruction.read memory buffer).outcome.bind fun result =>
            if result.1 = -1 ∨ (size.toNat : Int) < result.1 then none
            else some (·.setInteger result.2)
        else none
    | .delta =>
        let read := readVarint64 fun index => some (memory (buffer + index))
        if read.ret = -1 ∨ (size.toNat : Int) < read.ret then none
        else
          (cacheMessage.getField instruction.index).map fun cacheField =>
            let cacheValue : α := cacheField.getInteger (FieldInteger.ofBits 0)
            let newValue : α := FieldInteger.ofBits (FieldInteger.toBits cacheValue +
              (zigZagDecode64 (read.value.getD 0)).toUInt64)
            (·.setInteger newValue)

/-- The change that a string on the wire makes to its field in the snapshot, if it is accepted. -/
def FieldInstructionString.stored (instruction : FieldInstructionString) :
    Option (Field → Field) :=
  if pMap = fullMap ∨ instruction.type = .copy ∧ marked pMap instruction.index then
    let read := readVarint32 fun index => some (memory (buffer + index))
    let len := read.value.getD 0
    if read.ret = -1 ∨ (size.toNat : Int) < read.ret ∨ size.toNat < len.toNat then none
    else some (·.setString (memory.read (buffer + read.ret) len.toNat))
  else none

/-- The change that a field on the wire makes to its field in the snapshot, if it is accepted. -/
def FieldInstruction.stored : FieldInstruction → Option (Field → Field)
  | int64 instruction => instruction.stored memory buffer size cacheMessage pMap
  | uint64 instruction => instruction.stored memory buffer size cacheMessage pMap
  | uint32 instruction => instruction.stored memory buffer size cacheMessage pMap
  | string instruction => instruction.stored memory buffer size pMap

/-- What is stored is what the snapshot holds already. -/
def FieldInstruction.Repeats (instruction : FieldInstruction) : Prop :=
  ∀ change, instruction.stored memory buffer size cacheMessage pMap = some change →
    ∀ cacheField, cacheMessage.getField instruction.index = some cacheField →
      change cacheField = cacheField

end

/-- A snapshot after a change to one of its fields, or after none. -/
def Changed (cacheMessage : Message) (index : UInt16) (change : Option (Field → Field))
    (decoded : FieldDecoded) : Prop :=
  match change with
  | none => decoded.cacheMessage = cacheMessage
  | some change => cacheMessage.modifyField index change = some decoded.cacheMessage

section

variable {memory : Memory} {buffer : Int} {size : UInt64} {message cacheMessage : Message}
  {pMap : UInt32}

theorem changed_setBoth (index : UInt16) (change : Field → Field) (consume : Int) :
    Safe (fun _ => True) (Changed cacheMessage index (some change))
      (setBoth message cacheMessage index change consume) := by
  refine Safe.bind (Safe.ofOption fun _ modified => modified) fun updated modified => ?_
  exact Safe.bind (Safe.ofOption fun _ _ => trivial) fun _ _ => Safe.pure modified

/-- A computation's own result is all that is known of it. -/
theorem safe_outcome {α : Type} (computation : Traced Event α) :
    Safe (fun _ => True) (fun value => computation.outcome = some value) computation :=
  ⟨fun _ _ => trivial, fun _ => id⟩

/-- An integer field changes its snapshot by what it stores and in no other way. -/
theorem FieldInstructionInteger.decode_changed {α : Type} [FieldInteger α]
    (instruction : FieldInstructionInteger α) :
    Safe (fun _ => True) (Changed cacheMessage instruction.index
        (instruction.stored memory buffer size cacheMessage pMap))
      (instruction.decode memory buffer size message cacheMessage pMap) := by
  unfold decode stored
  by_cases full : pMap &&& fullMap ≠ 0
  · rw [if_pos full, if_pos full]
    split
    · exact Safe.pure rfl
    · exact Safe.bind (Safe.emit trivial) fun _ _ => changed_setBoth _ _ _
  · rw [if_neg full, if_neg full]
    cases kind : instruction.type with
    | copy =>
        by_cases present : marked pMap instruction.index = true
        · simp only [present, if_true]
          refine Safe.bind (safe_outcome _) fun result outcome => ?_
          rw [outcome, Option.bind_some]
          split
          · exact Safe.pure rfl
          · exact changed_setBoth _ _ _
        · simp only [present]
          exact Safe.pure rfl
    | delta =>
        refine Safe.bind ((readVarint64At_held memory buffer).mono (fun _ _ => trivial)
          fun _ => id) ?_
        rintro _ rfl
        dsimp only
        split
        · exact Safe.pure rfl
        · refine Safe.bind (Safe.ofOption fun _ found => found) fun cacheField found => ?_
          rw [found]
          exact changed_setBoth _ _ _

theorem FieldInstructionString.decodeString_changed (instruction : FieldInstructionString)
    (sent : pMap = fullMap ∨ instruction.type = .copy ∧ marked pMap instruction.index) :
    Safe (fun _ => True) (Changed cacheMessage instruction.index
        (instruction.stored memory buffer size pMap))
      (instruction.decodeString memory buffer size message cacheMessage) := by
  unfold stored
  rw [if_pos sent]
  refine Safe.bind ((readVarint32At_held memory buffer).mono (fun _ _ => trivial) fun _ => id) ?_
  rintro _ rfl
  dsimp only
  split
  · exact Safe.pure rfl
  · exact Safe.bind (Safe.emit trivial) fun _ _ => changed_setBoth _ _ _

/-- A string field changes its snapshot by what it stores and in no other way. -/
theorem FieldInstructionString.decode_changed (instruction : FieldInstructionString) :
    Safe (fun _ => True) (Changed cacheMessage instruction.index
        (instruction.stored memory buffer size pMap))
      (instruction.decode memory buffer size message cacheMessage pMap) := by
  unfold decode
  by_cases full : pMap = fullMap
  · rw [if_pos full]
    exact decodeString_changed instruction (Or.inl full)
  · rw [if_neg full]
    cases kind : instruction.type with
    | copy =>
        dsimp only
        split
        · rename_i present
          exact decodeString_changed instruction (Or.inr ⟨kind, present⟩)
        · rename_i absent
          have unsent : ¬(pMap = fullMap ∨ instruction.type = .copy ∧
              marked pMap instruction.index) := by
            rintro (whole | ⟨_, present⟩)
            · exact full whole
            · exact absent present
          rw [stored, if_neg unsent]
          exact Safe.bind (Safe.ofOption fun _ _ => trivial) fun _ _ =>
            Safe.bind (Safe.ofOption fun _ _ => trivial) fun _ _ => Safe.pure rfl
    | delta =>
        have unsent : ¬(pMap = fullMap ∨ instruction.type = .copy ∧
            marked pMap instruction.index) := by
          rintro (whole | ⟨copy, _⟩)
          · exact full whole
          · simp [kind] at copy
        rw [stored, if_neg unsent]
        exact Safe.pure rfl

/-- A field changes its snapshot by what it stores and in no other way. -/
theorem FieldInstruction.decode_changed (instruction : FieldInstruction) :
    Safe (fun _ => True) (Changed cacheMessage instruction.index
        (instruction.stored memory buffer size cacheMessage pMap))
      (instruction.decode memory buffer size message cacheMessage pMap) := by
  cases instruction with
  | int64 instruction => exact instruction.decode_changed
  | uint64 instruction => exact instruction.decode_changed
  | uint32 instruction => exact instruction.decode_changed
  | string instruction => exact instruction.decode_changed

/-- A field that repeats its snapshot's value leaves the snapshot as it is. -/
theorem FieldInstruction.Repeats.unchanged {instruction : FieldInstruction}
    (repeats : instruction.Repeats memory buffer size cacheMessage pMap) :
    Safe (fun _ => True) (fun decoded => decoded.cacheMessage = cacheMessage)
      (instruction.decode memory buffer size message cacheMessage pMap) := by
  refine instruction.decode_changed.mono (fun _ => id) fun decoded changed => ?_
  cases stored : instruction.stored memory buffer size cacheMessage pMap with
  | none => simpa [Changed, stored] using changed
  | some change =>
      simp only [Changed, stored] at changed
      obtain ⟨cacheField, found, updated⟩ := Option.map_eq_some_iff.mp changed
      rw [← updated, repeats change stored cacheField found]
      exact Message.setField_self found

/-! ## Messages -/

/-- The fields of a message ahead, up to one that fails, repeat what the snapshot holds. -/
def FieldsRepeat (memory : Memory) (pMap : UInt32) :
    List FieldInstruction → Template.Cursor → Prop
  | [], _ => True
  | instruction :: instructions, cursor =>
      0 ≤ cursor.bufferSize →
        instruction.Repeats memory cursor.begin_ (UInt64.ofNat cursor.bufferSize.toNat)
            cursor.cacheMessage pMap ∧
          ∀ field, (instruction.decode memory cursor.begin_
              (UInt64.ofNat cursor.bufferSize.toNat) cursor.message cursor.cacheMessage
              pMap).outcome = some field → field.ret ≠ -1 →
            FieldsRepeat memory pMap instructions
              { begin_ := cursor.begin_ + field.ret
                bufferSize := toInt32 (cursor.bufferSize - field.ret)
                consume := toInt32 (cursor.consume + field.ret)
                message := field.message
                cacheMessage := field.cacheMessage }

theorem FieldsRepeat.unchanged {instructions : List FieldInstruction} {cursor : Template.Cursor}
    (repeats : FieldsRepeat memory pMap instructions cursor) :
    Safe (fun _ => True) (fun decoded => decoded.cacheMessage = cursor.cacheMessage)
      (Template.decodeFields memory pMap instructions cursor) := by
  induction instructions generalizing cursor with
  | nil => exact Safe.pure rfl
  | cons instruction instructions ih =>
      unfold Template.decodeFields
      split
      · exact Safe.bind (Safe.emit trivial) fun _ _ => Safe.pure rfl
      · rename_i room
        obtain ⟨here, later⟩ := repeats (by omega)
        have both : Safe (fun _ => True) (fun decoded : FieldDecoded =>
            decoded.cacheMessage = cursor.cacheMessage ∧
              (instruction.decode memory cursor.begin_ (UInt64.ofNat cursor.bufferSize.toNat)
                cursor.message cursor.cacheMessage pMap).outcome = some decoded)
            (instruction.decode memory cursor.begin_ (UInt64.ofNat cursor.bufferSize.toNat)
              cursor.message cursor.cacheMessage pMap) :=
          ⟨fun _ _ => trivial, fun decoded outcome => ⟨here.unchanged.2 decoded outcome, outcome⟩⟩
        refine Safe.bind both ?_
        rintro field ⟨same, outcome⟩
        split
        · exact Safe.pure same
        · rename_i accepted
          refine Safe.bind (Safe.emit trivial) fun _ _ => ?_
          exact (ih (later field outcome accepted)).mono (fun _ => id)
            fun _ unchanged => unchanged.trans same

/-- A message ahead, up to a field that fails, repeats what the snapshot holds. -/
def Template.Repeats (tmp : Template) (memory : Memory) (buffer : Int) (size : UInt64)
    (cacheMessage : Message) : Prop :=
  size ≠ 0 → ∀ message, tmp.inputMessage = some message →
    FieldsRepeat memory (getUint32 (memory.read buffer 4).reverse) tmp.instructions
      ⟨buffer + 4, toInt32 (toInt32 size.toNat - 4), 4, message, cacheMessage⟩

theorem Template.Repeats.unchanged {tmp : Template} {messages : List Message}
    (repeats : tmp.Repeats memory buffer size cacheMessage) :
    Safe (fun _ => True) (fun decoded => decoded.cacheMessage = cacheMessage)
      (tmp.decode memory buffer size messages cacheMessage) := by
  unfold Template.decode
  split
  · exact Safe.pure rfl
  · rename_i nonempty
    refine Safe.bind (Safe.emit trivial) fun _ _ => ?_
    refine Safe.bind (Safe.emit trivial) fun _ _ => ?_
    refine Safe.bind (Safe.ofOption fun _ isMessage => isMessage) fun message isMessage => ?_
    exact Safe.bind (repeats nonempty message isMessage).unchanged fun _ same => Safe.pure same

end

/-! ## Passes -/

namespace Context

/-- The message at a cursor is for a snapshot that exists and repeats what it holds, up to a field
that fails. -/
def Quiet (memory : Memory) (cursor : Cursor) : Prop :=
  ∀ tmp cacheIndex, header memory cursor = some (tmp, cacheIndex) →
    ∃ (array : SnapShotCacheArray) (cacheMessage : Message),
      cursor.context.templateCacheArrays[tmp.index.toNat]? = some array ∧
      array[cacheIndex.toNat]? = some (some cacheMessage) ∧
      tmp.Repeats memory (behindHeader memory cursor).begin_ (behindHeader memory cursor).size
        cacheMessage

/-- A message that repeats its snapshot leaves the context as it is, and if it fails, it clears the
output vector. -/
theorem Quiet.decodeMessage {memory : Memory} {cursor : Cursor} {tmp : Template}
    {cacheIndex : UInt64} {array : SnapShotCacheArray} {cacheMessage : Message}
    (slot : cursor.context.templateCacheArrays[tmp.index.toNat]? = some array)
    (stored : array[cacheIndex.toNat]? = some (some cacheMessage))
    (repeats : tmp.Repeats memory cursor.begin_ cursor.size cacheMessage) :
    Safe (fun _ => True) (Keeps (fun next : Cursor => next.context = cursor.context)
        fun result : Decoded => result.messages = [] ∧ result.context = cursor.context)
      (Context.decodeMessage memory cursor tmp cacheIndex) := by
  refine Safe.bind (Safe.ofOption fun _ found => Option.some_inj.mp (found.symm.trans slot)) ?_
  rintro array rfl
  obtain ⟨bound, here⟩ := List.getElem?_eq_some_iff.mp stored
  obtain ⟨_, hereArray⟩ := List.getElem?_eq_some_iff.mp slot
  have same : cursor.context.templateCacheArrays.set tmp.index.toNat
      (array.set cacheIndex.toNat (some cacheMessage)) = cursor.context.templateCacheArrays := by
    rw [← here, List.set_getElem_self, ← hereArray, List.set_getElem_self]
  refine Safe.bind (show Safe (fun _ => True) (· = some (array, cacheMessage))
    (selectSnapshot tmp array cacheIndex) from ?_) ?_
  · rw [selectSnapshot, if_neg (by omega), stored]
    exact Safe.bind (Safe.emit trivial) fun _ _ => Safe.pure rfl
  · rintro _ rfl
    refine Safe.bind repeats.unchanged fun decoded unchanged => ?_
    simp only [unchanged, same]
    split
    · exact Safe.pure ⟨rfl, rfl⟩
    · exact Safe.bind (Safe.emit trivial) fun _ _ => Safe.pure rfl

theorem Quiet.decodePass {memory : Memory} {cursor : Cursor} (quiet : Quiet memory cursor)
    (end_ : Int) :
    Safe (fun _ => True) (Keeps (fun next : Cursor => next.context = cursor.context)
        fun result : Decoded => result.context = cursor.context)
      (Context.decodePass memory end_ cursor) := by
  refine ⟨fun _ _ => trivial, fun value outcome => ?_⟩
  by_cases before : cursor.begin_ ≤ end_
  · rw [outcome_decodePass before] at outcome
    cases accepted : header memory cursor with
    | none =>
        rw [accepted] at outcome
        exact Option.some_inj.mp outcome ▸ rfl
    | some found =>
        rw [accepted] at outcome
        obtain ⟨array, cacheMessage, slot, stored, repeats⟩ := quiet _ _ accepted
        have kept := (Quiet.decodeMessage
          (show (behindHeader memory cursor).context.templateCacheArrays[_]? = _ from slot) stored
          repeats).2 value outcome
        cases value with
        | leave result => exact kept.2
        | again next => exact kept
  · rw [decodePass_of_past before] at outcome
    exact Option.some_inj.mp outcome ▸ rfl

/-- The header at a cursor is not accepted, or its index is beyond what the table can hold. -/
def Refused (memory : Memory) (cursor : Cursor) : Prop :=
  header memory cursor = none ∨ ∃ tmp cacheIndex array,
    header memory cursor = some (tmp, cacheIndex) ∧
      cursor.context.templateCacheArrays[tmp.index.toNat]? = some array ∧
      array.length ≤ cacheIndex.toNat ∧ resize array (cacheIndex + 1) = none

theorem Refused.outcome {memory : Memory} {end_ : Int} {cursor : Cursor}
    (refused : Refused memory cursor) (before : cursor.begin_ ≤ end_) :
    (Context.decodePass memory end_ cursor).outcome =
      some (.leave ⟨cursor.messages, cursor.context⟩) := by
  rw [outcome_decodePass before]
  rcases refused with unaccepted | ⟨tmp, cacheIndex, array, accepted, slot, beyond, thrown⟩
  · rw [unaccepted]
    rfl
  · have slot' : (behindHeader memory cursor).context.templateCacheArrays[tmp.index.toNat]? =
        some array := slot
    rw [accepted, Option.elim_some]
    simp only [Context.decodeMessage, slot', Traced.ofOption_some, Traced.pure_bind, selectSnapshot,
      ge_iff_le, beyond, if_true, thrown, Traced.outcome_bind, Traced.outcome_emit,
      Traced.outcome_pure, Option.bind_some]
    rfl

/-! ## Runs -/

/-- The loop of a `decode` call is left at `last`, which is not the end of the buffer. -/
def StopsEarly (buffer : List UInt8) (outside : Memory) (context : Context)
    (messages : List Message) (last : Cursor) (result : Decoded) : Prop :=
  Reaches (passes buffer outside) (context.start (UInt64.ofNat buffer.length) messages) last ∧
    last.begin_ ≠ (UInt64.ofNat buffer.length).toNat ∧
    (passes buffer outside last).outcome = some (.leave result)

/-- At `last` nothing has been changed: it is the first header of the buffer and is refused, or the
output vector was empty, and up to a failing field all values repeat what the snapshots hold. -/
def Untouched (buffer : List UInt8) (outside : Memory) (context : Context)
    (messages : List Message) (last : Cursor) : Prop :=
  let memory := Memory.ofBuffer buffer outside
  (last = context.start (UInt64.ofNat buffer.length) messages ∧ Refused memory last) ∨
    messages = [] ∧ last.begin_ < (UInt64.ofNat buffer.length).toNat ∧
      (header memory last).isSome ∧
      ∀ cursor, Reaches (passes buffer outside)
        (context.start (UInt64.ofNat buffer.length) messages) cursor → Quiet memory cursor

/-- Along successive `decode` calls, one that stops early leaves the output vector and the context
as they were. -/
def FailsCleanly : Context → List (List UInt8 × Memory × List Message) → Prop
  | _, [] => True
  | context, (buffer, outside, messages) :: fed =>
      (∀ last result, StopsEarly buffer outside context messages last result →
        result.messages = messages ∧ result.context = context) ∧
      ∀ result, context.Decodes (Memory.ofBuffer buffer outside) (UInt64.ofNat buffer.length)
        messages result → FailsCleanly result.context fed

/-- Along successive `decode` calls, one that stops early does so where nothing has been changed. -/
def StopsUntouched : Context → List (List UInt8 × Memory × List Message) → Prop
  | _, [] => True
  | context, (buffer, outside, messages) :: fed =>
      (∀ last result, StopsEarly buffer outside context messages last result →
        Untouched buffer outside context messages last) ∧
      ∀ result, context.Decodes (Memory.ofBuffer buffer outside) (UInt64.ofNat buffer.length)
        messages result → StopsUntouched result.context fed

theorem StopsEarly.unchanged {buffer : List UInt8} {outside : Memory} {context : Context}
    {messages : List Message} {last : Cursor} {result : Decoded}
    (stops : StopsEarly buffer outside context messages last result)
    (untouched : Untouched buffer outside context messages last) :
    result.messages = messages ∧ result.context = context := by
  obtain ⟨reached, notEnd, left⟩ := stops
  rcases untouched with ⟨rfl, refused⟩ | ⟨rfl, before, accepted, quiet⟩
  · have before : (context.start (UInt64.ofNat buffer.length) messages).begin_ ≤
        ((UInt64.ofNat buffer.length).toNat : Int) - 1 := by
      simp only [start] at notEnd ⊢
      omega
    rw [passes, refused.outcome before] at left
    obtain rfl := Pass.leave.inj (Option.some_inj.mp left)
    exact ⟨rfl, rfl⟩
  · have keeps : ∀ next, Reaches (passes buffer outside)
        (context.start (UInt64.ofNat buffer.length) []) next → next.context = context →
        Safe (fun _ => True) (Keeps (fun next : Cursor => next.context = context)
          fun result : Decoded => result.context = context) (passes buffer outside next) := by
      intro next reachedNext same
      refine ((quiet next reachedNext).decodePass _).mono (fun _ => id) fun value kept => ?_
      cases value with
      | leave result => exact kept.trans same
      | again later => exact kept.trans same
    have unchanged : last.context = context := reached.keeps keeps rfl
    obtain ⟨found, header_eq⟩ := Option.isSome_iff_exists.mp accepted
    rw [passes, outcome_decodePass (by omega), header_eq] at left
    obtain ⟨array, cacheMessage, slot, stored, repeats⟩ := quiet last reached _ _ header_eq
    obtain ⟨cleared, same⟩ := (Quiet.decodeMessage
      (show (behindHeader _ last).context.templateCacheArrays[_]? = _ from slot) stored
      repeats).2 _ left
    exact ⟨cleared, same.trans unchanged⟩

/-- In any run in which every call that stops early does so where nothing has been changed, such a
call leaves the output vector and the context as they were. -/
theorem fails_cleanly_of_untouched {templates : Templates}
    {fed : List (List UInt8 × Memory × List Message)}
    (untouched : StopsUntouched (Context.new templates) fed) :
    FailsCleanly (Context.new templates) fed := by
  suffices run : ∀ context, StopsUntouched context fed → FailsCleanly context fed from
    run _ untouched
  clear untouched
  induction fed with
  | nil => exact fun _ _ => trivial
  | cons call fed ih =>
      obtain ⟨buffer, outside, messages⟩ := call
      rintro context ⟨here, later⟩
      exact ⟨fun last result stops => stops.unchanged (here last result stops),
        fun result decoded => ih _ (later result decoded)⟩

/-- An unknown template id at the start of a buffer. -/
theorem fails_cleanly_of_untouched_unknown :
    FailsCleanly (Context.new (Templates.ofList [priceTemplate]))
      [([9, 0], fun _ => 0, [(priceCall 5).message])] := by
  refine fails_cleanly_of_untouched ⟨?_, fun _ _ => trivial⟩
  have refused : header (Memory.ofBuffer [9, 0] fun _ => 0)
      ((Context.new (Templates.ofList [priceTemplate])).start 2 [(priceCall 5).message]) =
        none := rfl
  have left : ∃ result, (passes [9, 0] (fun _ => 0)
      ((Context.new (Templates.ofList [priceTemplate])).start 2
        [(priceCall 5).message])).outcome = some (.leave result) := ⟨_, rfl⟩
  obtain ⟨_, left⟩ := left
  rintro last result ⟨reached, _⟩
  cases reached with
  | refl => exact Or.inl ⟨rfl, Or.inl refused⟩
  | step again _ => exact absurd (again.symm.trans left) (by simp)

/-- A price and then an unknown template id: the price stays in the output vector and its snapshot
in the table. -/
theorem unknown_template_keeps_messages :
    ¬∀ (templates : Templates) (fed : List (List UInt8 × Memory × List Message)),
      FailsCleanly (Context.new templates) fed := by
  intro claimed
  obtain ⟨clean, _⟩ := claimed (Templates.ofList [priceTemplate])
    [(pricePacket ++ [9, 0], fun _ => 0, [])]
  obtain ⟨next, result, again, left, position, count⟩ : ∃ next result,
      (passes (pricePacket ++ [9, 0]) (fun _ => 0)
        ((Context.new (Templates.ofList [priceTemplate])).start 16 [])).outcome =
          some (.again next) ∧
      (passes (pricePacket ++ [9, 0]) (fun _ => 0) next).outcome = some (.leave result) ∧
      next.begin_ = 14 ∧ result.messages.length = 1 := ⟨_, _, rfl, rfl, rfl, rfl⟩
  have kept := (clean next result ⟨.step again (.refl next), by rw [position]; decide, left⟩).1
  simp [kept] at count

end Context

end FlashForwarder
