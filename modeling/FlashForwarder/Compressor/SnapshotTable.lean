import FlashForwarder.Compressor.RoundTrip

/-!
# The decoder's snapshot table

Indices come from the wire.  As long as every index is one that was used before or the next new
one, the table has no null entry, never shrinks and is never accessed outside.
-/

namespace FlashForwarder

open WireFormat ProgramLoop Traced

/-- An access to a snapshot array is inside and finds a snapshot. -/
def Event.Held : Event → Prop
  | .snapshot count index held => index < count ∧ held = true
  | _ => True

/-- Writing a value into a field does not change the types of a message. -/
theorem Message.types_of_modifyField {message updated : Message} {index : UInt16}
    {change : Field → Field} (modified : message.modifyField index change = some updated)
    (same : ∀ field : Field, (change field).type = field.type) : updated.types = message.types := by
  rw [modifyField, Option.map_eq_some_iff] at modified
  obtain ⟨field, found, rfl⟩ := modified
  have here : message.fields[index.toNat]? = some field := by
    unfold getField at found
    split at found
    · simp at found
    · exact found
  obtain ⟨bound, rfl⟩ := List.getElem?_eq_some_iff.mp here
  simp only [types, List.map_set, same]
  rw [← List.getElem_map (f := Field.type) (h := by simpa using bound), List.set_getElem_self]

/-! ## One message -/

section

variable {memory : Memory} {buffer : Int} {size : UInt64} {message cacheMessage : Message}
  {pMap : UInt32}

/-- A field was read: no snapshot was accessed, and this one has the fields it had. -/
abbrev FieldSafe (cacheMessage : Message) (decoding : Traced Event FieldDecoded) : Prop :=
  Safe Event.Held (fun decoded => decoded.cacheMessage.types = cacheMessage.types) decoding

theorem setBoth_fieldSafe (index : UInt16) {change : Field → Field} (consume : Int)
    (same : ∀ field : Field, (change field).type = field.type) :
    FieldSafe cacheMessage (setBoth message cacheMessage index change consume) := by
  refine Safe.bind (Safe.ofOption fun updated modified =>
    Message.types_of_modifyField modified same) fun updated types => ?_
  exact Safe.bind (Safe.ofOption fun _ _ => trivial) fun _ _ =>
    Safe.pure types

theorem readVarint32At_held (memory : Memory) (address : Int) :
    Safe Event.Held (readVarint32 (fun offset => some (memory (address + offset))) = ·)
      (readVarint32At memory address) :=
  Safe.bind (Safe.emit trivial) fun _ _ => Safe.pure rfl

theorem readVarint64At_held (memory : Memory) (address : Int) :
    Safe Event.Held (readVarint64 (fun offset => some (memory (address + offset))) = ·)
      (readVarint64At memory address) :=
  Safe.bind (Safe.emit trivial) fun _ _ => Safe.pure rfl

theorem FieldInstructionInteger.read_held {α : Type} [FieldInteger α]
    (instruction : FieldInstructionInteger α) :
    Safe Event.Held (fun _ => True) (instruction.read memory buffer) := by
  unfold FieldInstructionInteger.read
  split
  · exact Safe.bind (readVarint32At_held memory buffer) fun _ _ => Safe.pure trivial
  · split
    · exact Safe.undefined
    · exact Safe.bind (readVarint64At_held memory buffer) fun _ _ => Safe.pure trivial

theorem FieldInstructionInteger.decode_fieldSafe {α : Type} [FieldInteger α] [LawfulFieldInteger α]
    (instruction : FieldInstructionInteger α) :
    FieldSafe cacheMessage (instruction.decode memory buffer size message cacheMessage pMap) := by
  unfold FieldInstructionInteger.decode
  split
  · split
    · exact Safe.pure rfl
    · exact Safe.bind (Safe.emit trivial) fun _ _ =>
        setBoth_fieldSafe _ _ fun field => Field.type_setInteger field _
  · split
    · split
      · refine Safe.bind (read_held instruction) fun result _ => ?_
        dsimp only
        split
        · exact Safe.pure rfl
        · exact setBoth_fieldSafe _ _ fun field => Field.type_setInteger field _
      · exact Safe.pure rfl
    · refine Safe.bind (readVarint64At_held memory buffer) fun result _ => ?_
      dsimp only
      split
      · exact Safe.pure rfl
      · exact Safe.bind (Safe.ofOption fun _ _ => trivial) fun _ _ =>
          setBoth_fieldSafe _ _ fun field => Field.type_setInteger field _

theorem FieldInstructionString.decodeString_fieldSafe (instruction : FieldInstructionString) :
    FieldSafe cacheMessage (instruction.decodeString memory buffer size message cacheMessage) := by
  refine Safe.bind (readVarint32At_held memory buffer) fun result _ => ?_
  dsimp only
  split
  · exact Safe.pure rfl
  · exact Safe.bind (Safe.emit trivial) fun _ _ =>
      setBoth_fieldSafe _ _ fun field => Field.type_setString field _

theorem FieldInstructionString.decode_fieldSafe (instruction : FieldInstructionString) :
    FieldSafe cacheMessage (instruction.decode memory buffer size message cacheMessage pMap) := by
  unfold FieldInstructionString.decode
  split
  · exact decodeString_fieldSafe instruction
  · split
    · split
      · exact decodeString_fieldSafe instruction
      · exact Safe.bind (Safe.ofOption fun _ _ => trivial) fun _ _ =>
          Safe.bind (Safe.ofOption fun _ _ => trivial) fun _ _ =>
            Safe.pure rfl
    · exact Safe.pure rfl

theorem FieldInstruction.decode_fieldSafe (instruction : FieldInstruction) :
    FieldSafe cacheMessage (instruction.decode memory buffer size message cacheMessage pMap) := by
  cases instruction with
  | int64 instruction => exact instruction.decode_fieldSafe
  | uint64 instruction => exact instruction.decode_fieldSafe
  | uint32 instruction => exact instruction.decode_fieldSafe
  | string instruction => exact instruction.decode_fieldSafe

theorem Template.decodeFields_fieldSafe (instructions : List FieldInstruction)
    (cursor : Template.Cursor) :
    FieldSafe cursor.cacheMessage (decodeFields memory pMap instructions cursor) := by
  induction instructions generalizing cursor with
  | nil => exact Safe.pure rfl
  | cons instruction instructions ih =>
      unfold decodeFields
      split
      · exact Safe.bind (Safe.emit trivial) fun _ _ => Safe.pure rfl
      · refine Safe.bind instruction.decode_fieldSafe fun field types => ?_
        split
        · exact Safe.pure types
        · refine Safe.bind (Safe.emit trivial) fun _ _ => ?_
          exact (ih _).mono (fun _ held => held) fun _ later => later.trans types

/-- A template leaves the snapshot with the fields it had. -/
theorem Template.decode_types (tmp : Template) (messages : List Message) :
    Safe Event.Held (fun decoded => decoded.cacheMessage.types = cacheMessage.types)
      (tmp.decode memory buffer size messages cacheMessage) := by
  unfold Template.decode
  split
  · exact Safe.pure rfl
  · refine Safe.bind (Safe.emit trivial) fun _ _ => ?_
    refine Safe.bind (Safe.emit trivial) fun _ _ => ?_
    refine Safe.bind (Safe.ofOption fun _ _ => trivial) fun _ _ => ?_
    exact Safe.bind (decodeFields_fieldSafe _ _) fun _ types => Safe.pure types

end

/-! ## One pass -/

namespace Context

/-- Every entry of every snapshot array is a snapshot with the fields of the template whose array
it is. -/
def WellFormed (context : Context) : Prop :=
  ∀ (slot : Nat) (array : SnapShotCacheArray),
    context.templateCacheArrays[slot]? = some array → ∀ entry ∈ array,
    ∃ id tmp message snapshot, context.templates.getTemplate id = some tmp ∧
      tmp.index.toNat = slot ∧ tmp.inputMessage = some message ∧ entry = some snapshot ∧
      snapshot.types = message.types

/-- No snapshot array is lost or shorter than it was. -/
def Grows (before after : Context) : Prop :=
  ∀ (slot : Nat) (array : SnapShotCacheArray), before.templateCacheArrays[slot]? = some array →
    ∃ array' : SnapShotCacheArray, after.templateCacheArrays[slot]? = some array' ∧
      array.length ≤ array'.length

/-- The template and the index in the header at a cursor, where `decode` accepts them. -/
def header (memory : Memory) (cursor : Cursor) : Option (Template × UInt64) :=
  let id := readVarint32 fun offset => some (memory (cursor.begin_ + offset))
  let size := cursor.size - UInt64.ofInt id.ret
  let cacheIndex := readVarint64 fun offset => some (memory (cursor.begin_ + id.ret + offset))
  if refuses cursor.size id.ret || refuses size cacheIndex.ret then none
  else (cursor.context.templates.getTemplate (id.value.getD 0)).map fun tmp =>
    (tmp, cacheIndex.value.getD 0)

theorem getTemplate_of_header {memory : Memory} {cursor : Cursor} {tmp : Template}
    {cacheIndex : UInt64} (named : header memory cursor = some (tmp, cacheIndex)) :
    ∃ id, cursor.context.templates.getTemplate id = some tmp := by
  unfold header at named
  dsimp only at named
  split at named
  · cases named
  · obtain ⟨known, found, same⟩ := Option.map_eq_some_iff.mp named
    obtain ⟨rfl, -⟩ := Prod.mk.inj same
    exact ⟨_, found⟩

theorem header_of_holds {memory : Memory} {cursor : Cursor} {tmp : Template}
    {index : UInt64} {rest : List UInt8}
    (known : cursor.context.templates.getTemplate tmp.id = some tmp)
    (held : memory.Holds cursor.begin_ (tmp.header index ++ rest))
    (room : (tmp.header index).length ≤ cursor.size.toNat) :
    header memory cursor = some (tmp, index) := by
  obtain ⟨idHeld, indexHeld⟩ := Memory.holds_append.mp (Memory.holds_append.mp held).1
  have isId : readVarint32 (fun offset => some (memory (cursor.begin_ + offset))) = _ :=
    Option.some_inj.mp (readVarint32At_write idHeld)
  have isIndex : readVarint64 (fun offset => some (memory (cursor.begin_ +
      (writeVarint32 tmp.id).length + offset))) = _ :=
    Option.some_inj.mp (readVarint64At_write indexHeld)
  rw [Template.header, List.length_append] at room
  have left := toNat_sub_ofInt cursor.size (n := (writeVarint32 tmp.id).length) (by omega)
  have idFits := refuses_eq_false cursor.size (n := (writeVarint32 tmp.id).length) (by omega)
  have indexFits := refuses_eq_false
    (cursor.size - UInt64.ofInt ((writeVarint32 tmp.id).length : Int))
    (n := (writeVarint64 index).length) (by omega)
  unfold header
  simp only [isId, isIndex, idFits, indexFits, Bool.or_self, Bool.false_eq_true, if_false,
    Option.getD_some, known, Option.map_some]

/-- The cursor behind the header at a cursor. -/
def behindHeader (memory : Memory) (cursor : Cursor) : Cursor :=
  let id := readVarint32 fun offset => some (memory (cursor.begin_ + offset))
  let cacheIndex := readVarint64 fun offset => some (memory (cursor.begin_ + id.ret + offset))
  { cursor with
    begin_ := cursor.begin_ + id.ret + cacheIndex.ret
    size := cursor.size - UInt64.ofInt id.ret - UInt64.ofInt cacheIndex.ret }

/-- A pass stops at a header that `decode` does not accept, and goes on with the message behind one
that it does. -/
theorem outcome_decodePass {memory : Memory} {end_ : Int} {cursor : Cursor}
    (before : cursor.begin_ ≤ end_) :
    (decodePass memory end_ cursor).outcome =
      (header memory cursor).elim (some (.leave ⟨cursor.messages, cursor.context⟩)) fun found =>
        (decodeMessage memory (behindHeader memory cursor) found.1 found.2).outcome := by
  have read32 : ∀ address, (readVarint32At memory address).outcome =
      some (readVarint32 fun offset => some (memory (address + offset))) := fun _ => rfl
  have read64 : ∀ address, (readVarint64At memory address).outcome =
      some (readVarint64 fun offset => some (memory (address + offset))) := fun _ => rfl
  unfold decodePass header behindHeader
  simp only [before, if_true, outcome_bind, read32, Option.bind_some]
  split
  · simp_all [Cursor.stop]
  · simp only [outcome_bind, outcome_emit, read64, Option.bind_some]
    split
    · simp_all [Cursor.stop]
    · cases found : cursor.context.templates.getTemplate
        ((readVarint32 fun offset => some (memory (cursor.begin_ + offset))).value.getD 0) with
      | none => simp_all [Cursor.stop, outcome_bind]
      | some tmp => simp_all [outcome_bind]

/-- The index at a cursor does not skip ahead: it was used before, or is the next new one and not
the largest 64-bit number. -/
def Announced (memory : Memory) (end_ : Int) (cursor : Cursor) : Prop :=
  cursor.begin_ ≤ end_ → ∀ tmp cacheIndex array, header memory cursor = some (tmp, cacheIndex) →
    cursor.context.templateCacheArrays[tmp.index.toNat]? = some array →
    cacheIndex.toNat ≤ array.length ∧ cacheIndex.toNat < 2 ^ 64 - 1

theorem Grows.refl (context : Context) : Grows context context :=
  fun _ array found => ⟨array, found, Nat.le_refl _⟩

theorem Grows.trans {first second third : Context} (left : Grows first second)
    (right : Grows second third) : Grows first third := by
  intro slot array found
  obtain ⟨middle, foundMiddle, atLeast⟩ := left slot array found
  obtain ⟨last, foundLast, atLeast'⟩ := right slot middle foundMiddle
  exact ⟨last, foundLast, atLeast.trans atLeast'⟩

/-- Replacing one array by one that is no shorter. -/
theorem Grows.set {context : Context} {slot : Nat} {array array' : SnapShotCacheArray}
    (found : context.templateCacheArrays[slot]? = some array)
    (atLeast : array.length ≤ array'.length) :
    Grows context
      { context with templateCacheArrays := context.templateCacheArrays.set slot array' } := by
  intro other old here
  by_cases same : slot = other
  · subst same
    rw [found, Option.some_inj] at here
    subst here
    exact ⟨array', List.getElem?_set_self (List.getElem?_eq_some_iff.mp found).1, atLeast⟩
  · exact ⟨old, by rw [List.getElem?_set_ne same, here], Nat.le_refl _⟩

/-- Replacing one array by one whose entries are snapshots of its template. -/
theorem WellFormed.set {context : Context} (wellFormed : WellFormed context) {id : UInt32}
    {tmp : Template} {message : Message} {array : SnapShotCacheArray}
    (found : context.templates.getTemplate id = some tmp)
    (isMessage : tmp.inputMessage = some message)
    (entries : ∀ entry ∈ array, ∃ snapshot, entry = some snapshot ∧
      snapshot.types = message.types) :
    WellFormed
      { context with
        templateCacheArrays := context.templateCacheArrays.set tmp.index.toNat array } := by
  intro slot other here entry member
  by_cases same : tmp.index.toNat = slot
  · subst same
    have bound := (List.getElem?_eq_some_iff.mp here).1
    rw [List.length_set] at bound
    rw [List.getElem?_set_self bound, Option.some_inj] at here
    subst here
    obtain ⟨snapshot, isSnapshot, types⟩ := entries entry member
    exact ⟨id, tmp, message, snapshot, found, rfl, isMessage, isSnapshot, types⟩
  · rw [List.getElem?_set_ne same] at here
    exact wellFormed slot other here entry member

variable {added : List Template}

/-- In a set of at most 255 templates, the entries of a template's array are its own. -/
theorem WellFormed.entries (few : added.length ≤ 255) {context : Context}
    (wellFormed : WellFormed context) (templates : context.templates = Templates.ofList added)
    {id : UInt32} {tmp : Template} (found : context.templates.getTemplate id = some tmp)
    {array : SnapShotCacheArray}
    (slot : context.templateCacheArrays[tmp.index.toNat]? = some array) :
    ∀ entry ∈ array, ∃ snapshot, entry = some snapshot ∧
      ∃ message, tmp.inputMessage = some message ∧ snapshot.types = message.types := by
  intro entry member
  obtain ⟨other, tmp', message, snapshot, found', index, isMessage, isSnapshot, types⟩ :=
    wellFormed _ array slot entry member
  rw [templates] at found found'
  have same := Templates.getTemplate_inj few found' found (UInt8.toNat_inj.mp index)
  exact ⟨snapshot, isSnapshot, message, same ▸ isMessage, types⟩

/-- What is kept from the start of a call on. -/
structure Sound (added : List Template) (start context : Context) : Prop where
  templates : context.templates = Templates.ofList added
  wellFormed : WellFormed context
  grows : Grows start context

/-- The snapshot that is used, whether found in its array or made up, is good, and so are all
entries of the array once it is stored. -/
structure Usable (good : Message → Prop) (array : SnapShotCacheArray) (cacheIndex : UInt64)
    (selected : SnapShotCacheArray × Message) : Prop where
  atLeast : array.length ≤ selected.1.length
  found : good selected.2
  stored : ∀ snapshot : Message, good snapshot →
    ∀ entry ∈ selected.1.set cacheIndex.toNat (some snapshot), ∃ held, entry = some held ∧ good held

theorem selectSnapshot_usable {good : Message → Prop} {tmp : Template}
    {array : SnapShotCacheArray} {cacheIndex : UInt64}
    (entries : ∀ entry ∈ array, ∃ snapshot, entry = some snapshot ∧ good snapshot)
    (fresh : ∀ message, tmp.inputMessage = some message →
      good (message.setIndex cacheIndex).reset)
    (inside : cacheIndex.toNat ≤ array.length) (bounded : cacheIndex.toNat < 2 ^ 64 - 1) :
    Safe Event.Held (fun selected => ∀ pair, selected = some pair →
      Usable good array cacheIndex pair) (selectSnapshot tmp array cacheIndex) := by
  unfold selectSnapshot
  split
  · have atEnd : cacheIndex.toNat = array.length := by omega
    have next : (cacheIndex + 1).toNat = array.length + 1 := by
      rw [UInt64.toNat_add, atEnd]
      exact Nat.mod_eq_of_lt (by simp only [UInt64.toNat_one]; omega)
    split
    · exact Safe.bind (Safe.emit trivial) fun _ _ => Safe.pure (by simp)
    · rename_i grown resized
      have size : grown = array ++ [none] := by
        rw [(resize_eq_some_iff.mp resized).2, next, List.take_of_length_le (by omega),
          Nat.add_sub_cancel_left, List.replicate_one]
      refine Safe.bind (Safe.ofOption fun _ isMessage => isMessage) fun message isMessage => ?_
      have held : cacheIndex.toNat < grown.length := by
        rw [size, List.length_append, List.length_singleton]
        omega
      simp only [held, decide_true]
      refine Safe.bind (Safe.emit ⟨held, rfl⟩) fun _ _ => Safe.pure ?_
      rintro _ ⟨⟩
      refine ⟨by simp [size], fresh message isMessage, fun snapshot isGood entry member => ?_⟩
      rw [size, atEnd, List.set_append_right _ _ (Nat.le_refl _), Nat.sub_self] at member
      rcases List.mem_append.mp member with old | last
      · exact entries entry old
      · exact ⟨snapshot, by simpa using last, isGood⟩
  · have bound : cacheIndex.toNat < array.length := by omega
    obtain ⟨snapshot, isSnapshot, isGood⟩ :=
      entries array[cacheIndex.toNat] (List.getElem_mem bound)
    have entry : array[cacheIndex.toNat]?.join = some snapshot := by
      rw [List.getElem?_eq_getElem bound, isSnapshot]
      rfl
    simp only [entry]
    refine Safe.bind (Safe.emit ⟨bound, rfl⟩) fun _ _ => ?_
    refine Safe.bind (Safe.pure rfl) ?_
    rintro _ rfl
    refine Safe.pure ?_
    rintro _ ⟨⟩
    refine ⟨Nat.le_refl _, isGood, fun updated updatedGood entry member => ?_⟩
    rcases List.mem_or_eq_of_mem_set member with kept | rfl
    · exact entries entry kept
    · exact ⟨updated, rfl, updatedGood⟩

/-- A message at an announced index keeps the table sound. -/
theorem decodeMessage_sound (few : added.length ≤ 255) {memory : Memory} {origin : Context}
    {cursor : Cursor} (sound : Sound added origin cursor.context) {id : UInt32} {tmp : Template}
    {cacheIndex : UInt64} (found : cursor.context.templates.getTemplate id = some tmp)
    (announced : ∀ array, cursor.context.templateCacheArrays[tmp.index.toNat]? = some array →
      cacheIndex.toNat ≤ array.length ∧ cacheIndex.toNat < 2 ^ 64 - 1) :
    Safe Event.Held (Keeps (fun next : Cursor => Sound added origin next.context)
      fun result : Decoded => Sound added origin result.context)
      (decodeMessage memory cursor tmp cacheIndex) := by
  have here := sound
  obtain ⟨templates, wellFormed, grows⟩ := sound
  refine Safe.bind (Safe.ofOption fun _ slot => slot) fun array slot => ?_
  obtain ⟨inside, bounded⟩ := announced array slot
  refine Safe.bind (selectSnapshot_usable (wellFormed.entries few templates found slot)
    (fun message isMessage => ⟨message, isMessage, by simp⟩) inside bounded) ?_
  rintro (_ | ⟨grown, cacheMessage⟩) usable
  · exact Safe.pure here
  · obtain ⟨atLeast, ⟨message, isMessage, types⟩, stored⟩ := usable _ rfl
    refine Safe.bind (Template.decode_types tmp cursor.messages) fun decoded kept => ?_
    have after : Sound added origin { cursor.context with
        templateCacheArrays := cursor.context.templateCacheArrays.set tmp.index.toNat
          (grown.set cacheIndex.toNat (some decoded.cacheMessage)) } :=
      ⟨templates, wellFormed.set found isMessage fun entry member => by
          obtain ⟨held, isHeld, message', isMessage', heldTypes⟩ :=
            stored _ ⟨message, isMessage, kept.trans types⟩ entry member
          rw [isMessage, Option.some_inj] at isMessage'
          exact ⟨held, isHeld, isMessage' ▸ heldTypes⟩,
        grows.trans (Grows.set slot (by simpa using atLeast))⟩
    dsimp only
    split
    · exact Safe.pure after
    · exact Safe.bind (Safe.emit trivial) fun _ _ => Safe.pure after

/-- A pass with an announced index keeps the table sound. -/
theorem decodePass_sound (few : added.length ≤ 255) {memory : Memory} {end_ : Int}
    {origin : Context} {cursor : Cursor} (sound : Sound added origin cursor.context)
    (announced : Announced memory end_ cursor) :
    Safe Event.Held (Keeps (fun next : Cursor => Sound added origin next.context)
      fun result : Decoded => Sound added origin result.context)
      (decodePass memory end_ cursor) := by
  unfold decodePass
  split
  · rename_i inside
    refine Safe.bind (readVarint32At_held memory cursor.begin_) fun templateId isId => ?_
    by_cases refusedId : refuses cursor.size templateId.ret = true
    · rw [if_pos refusedId]
      exact Safe.pure sound
    rw [if_neg refusedId]
    refine Safe.bind (Safe.emit trivial) fun _ _ => ?_
    refine Safe.bind (readVarint64At_held memory (cursor.begin_ + templateId.ret))
      fun cacheIndex isIndex => ?_
    dsimp only
    by_cases refusedIndex :
        refuses (cursor.size - UInt64.ofInt templateId.ret) cacheIndex.ret = true
    · rw [if_pos refusedIndex]
      exact Safe.pure sound
    rw [if_neg refusedIndex]
    refine Safe.bind (Safe.emit trivial) fun _ _ => ?_
    cases found : cursor.context.templates.getTemplate (templateId.value.getD 0) with
    | none => exact Safe.pure sound
    | some tmp =>
        have named : header memory cursor = some (tmp, cacheIndex.value.getD 0) := by
          simp only [header, isId, isIndex, refusedId, refusedIndex, Bool.or_self,
            Bool.false_eq_true, if_false, found, Option.map_some]
        have next : Sound added origin
            (⟨cursor.begin_ + templateId.ret + cacheIndex.ret,
              cursor.size - UInt64.ofInt templateId.ret - UInt64.ofInt cacheIndex.ret,
              cursor.messages, cursor.context⟩ : Cursor).context := sound
        exact decodeMessage_sound few next found fun array slot =>
          announced inside tmp _ array named slot
  · exact Safe.pure sound

/-! ## Runs -/

/-- The loop of a `decode` call on a buffer. -/
def passes (buffer : List UInt8) (outside : Memory) :
    Cursor → Traced Event (Pass Cursor Decoded) :=
  decodePass (Memory.ofBuffer buffer outside) ((UInt64.ofNat buffer.length).toNat - 1)

/-- No index skips ahead in successive `decode` calls. -/
def AllAnnounced : Context → List (List UInt8 × Memory) → Prop
  | _, [] => True
  | context, (buffer, outside) :: fed => ∀ messages : List Message,
      (∀ cursor, Reaches (passes buffer outside)
        (context.start (UInt64.ofNat buffer.length) messages) cursor →
          Announced (Memory.ofBuffer buffer outside) ((UInt64.ofNat buffer.length).toNat - 1)
            cursor) ∧
      ∀ result, context.Decodes (Memory.ofBuffer buffer outside) (UInt64.ofNat buffer.length)
        messages result → AllAnnounced result.context fed

/-- Along successive `decode` calls the table stays well formed after every message and never
shrinks, and every access to a snapshot is inside and finds one. -/
def TableKept : Context → List (List UInt8 × Memory) → Prop
  | context, [] => context.WellFormed
  | context, (buffer, outside) :: fed => context.WellFormed ∧ ∀ messages : List Message,
      (∀ fuel, ∀ event ∈ (context.decode fuel (Memory.ofBuffer buffer outside)
        (UInt64.ofNat buffer.length) messages).events, event.Held) ∧
      (∀ cursor, Reaches (passes buffer outside)
        (context.start (UInt64.ofNat buffer.length) messages) cursor →
          cursor.context.WellFormed ∧ context.Grows cursor.context) ∧
      ∀ result, context.Decodes (Memory.ofBuffer buffer outside) (UInt64.ofNat buffer.length)
        messages result → context.Grows result.context ∧ TableKept result.context fed

/-- In any run over at most 255 templates in which no index skips ahead, the table is kept. -/
theorem table_kept_of_announced {fed : List (List UInt8 × Memory)} (few : added.length ≤ 255)
    (announced : AllAnnounced (Context.new (Templates.ofList added)) fed) :
    TableKept (Context.new (Templates.ofList added)) fed := by
  suffices run : ∀ context : Context, context.templates = Templates.ofList added →
      context.WellFormed → AllAnnounced context fed → TableKept context fed by
    refine run _ rfl ?_ announced
    intro slot array here entry member
    obtain rfl : [] = array := (List.mem_replicate.mp (List.mem_of_getElem? here)).2.symm
    simp at member
  clear announced
  induction fed with
  | nil => exact fun _ _ wellFormed _ => wellFormed
  | cons call fed ih =>
      obtain ⟨buffer, outside⟩ := call
      intro context templates wellFormed announced
      refine ⟨wellFormed, fun messages => ?_⟩
      obtain ⟨here, later⟩ := announced messages
      have sound : Sound added context context := ⟨templates, wellFormed, Grows.refl context⟩
      have keeps : ∀ next, Reaches (passes buffer outside)
          (context.start (UInt64.ofNat buffer.length) messages) next →
            Sound added context next.context → Safe Event.Held
              (Keeps (fun next : Cursor => Sound added context next.context)
                fun result : Decoded => Sound added context result.context)
              (passes buffer outside next) :=
        fun next reached kept => decodePass_sound few kept (here next reached)
      have safe : ∀ fuel, Safe Event.Held
          (fun result : Decoded => Sound added context result.context)
          (context.decode fuel (Memory.ofBuffer buffer outside) (UInt64.ofNat buffer.length)
            messages) := by
        intro fuel
        unfold decode
        split
        · exact Safe.pure sound
        · exact Safe.loop keeps fuel sound
      refine ⟨fun fuel => (safe fuel).1, fun cursor reached => ?_, fun result returned => ?_⟩
      · have kept := reached.keeps keeps sound
        exact ⟨kept.wellFormed, kept.grows⟩
      · obtain ⟨fuel, outcome⟩ := returned
        have kept := (safe fuel).2 result outcome
        exact ⟨kept.grows, ih _ kept.templates kept.wellFormed (later result ⟨fuel, outcome⟩)⟩

/-- One price in full, at index 0. -/
def pricePacket : List UInt8 := [1, 0, 0, 0, 0, 128, 5, 0, 0, 0, 0, 0, 0, 0]

/-- One price in full, at the next new index. -/
theorem table_kept_of_announced_price :
    TableKept (Context.new (Templates.ofList [priceTemplate])) [(pricePacket, fun _ => 0)] := by
  refine table_kept_of_announced (by decide) fun messages => ⟨?_, fun _ _ => trivial⟩
  intro cursor reached
  have bytes : wireBytes (priceTemplate.setIndex 0) [] (priceCall 5) = pricePacket := by decide
  have held : (Memory.ofBuffer pricePacket fun _ => 0).Holds 0
      (wireBytes (priceTemplate.setIndex 0) [] (priceCall 5)) := by
    rw [bytes, Memory.Holds]
    decide
  obtain ⟨_, size, decoder, _, _, _, outcome, _⟩ := (LateFollows.fresh (by decide) []).step
    (by decide) wellTyped_priceTemplate rfl
    (fits_priceCall 5 _ rfl) (by decide) (by decide) 13
    ((Context.new (Templates.ofList [priceTemplate])).start 14 messages) rfl
    (show (0 : Int) ≤ 13 by decide) held
    (show (wireBytes _ _ _).length ≤ (14 : UInt64).toNat by decide)
    (show (14 : UInt64).toNat < 2147483648 by decide)
  obtain ⟨next, outcome, past⟩ : ∃ next : Cursor, (passes pricePacket (fun _ => 0)
      ((Context.new (Templates.ofList [priceTemplate])).start 14 messages)).outcome =
        some (.again next) ∧ ¬next.begin_ ≤ (UInt64.ofNat pricePacket.length).toNat - 1 :=
    ⟨_, outcome, show ¬(0 : Int) + (wireBytes _ _ _).length ≤ _ by decide⟩
  cases reached with
  | refl =>
      intro _ tmp cacheIndex array named slot
      have empty : (header (Memory.ofBuffer pricePacket fun _ => 0)
          ((Context.new (Templates.ofList [priceTemplate])).start 14 [])).map Prod.snd =
            some 0 := by
        decide
      have first : some cacheIndex = some 0 := by
        rw [← empty]
        exact (congrArg (Option.map Prod.snd) named).symm
      rw [Option.some_inj.mp first]
      exact ⟨Nat.zero_le _, by decide⟩
  | step again later =>
      obtain rfl := Pass.again.inj (Option.some_inj.mp (outcome.symm.trans again))
      cases later with
      | refl => exact fun inside => absurd inside past
      | step again' _ =>
          rw [passes, decodePass_of_past past] at again'
          cases again'

/-- A message at index 1 before any at index 0 leaves a null entry behind, and a message at index 0
then goes through it. -/
theorem skipped_index_leaves_null :
    ¬∀ (added : List Template) (fed : List (List UInt8 × Memory)),
      TableKept (Context.new (Templates.ofList added)) fed := by
  intro claimed
  have kept := ((claimed [priceTemplate]
    [([1, 1, 0, 0, 0, 128, 5, 0, 0, 0, 0, 0, 0, 0, 1, 0, 0, 0, 0, 128, 6, 0, 0, 0, 0, 0, 0, 0],
      fun _ => 0)]).2 []).1 2 (.snapshot 2 0 false) (by decide)
  exact absurd kept.2 (by decide)

end Context

end FlashForwarder
