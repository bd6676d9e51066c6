import FlashForwarder.Compressor.StreamGrammar
import FlashForwarder.Compressor.SnapshotTable

/-!
# Reads stay inside the buffer

On a buffer whose messages all end inside it, `decode` looks at no byte outside, takes no more off
a count of remaining bytes than there are, and cuts no message short.  It returns if every message
finds its snapshot.
-/

namespace FlashForwarder

open WireFormat Varint ProgramLoop Traced

/-- What an event may be in a buffer of `total` bytes. -/
def Event.Inside (total : Nat) : Event → Prop
  | .read address count => 0 ≤ address ∧ address + count ≤ total
  | .debit remaining amount => amount ≤ remaining
  | .cut => False
  | .snapshot _ _ _ => True
  | .lengthError => False

/-- The bytes from `address` to the end of a buffer of `total` bytes. -/
structure Stands (memory : Memory) (total : Nat) (address : Int) (ahead : List UInt8) : Prop where
  held : memory.Holds address ahead
  start : 0 ≤ address
  reaches : address + ahead.length = total

/-- A returned length against what is ahead: the bytes up to `verdict`, or `-1`. -/
def Took (verdict : Option (List UInt8)) (ahead : List UInt8) (ret : Int) : Prop :=
  match verdict with
  | none => ret = -1
  | some rest => ∃ bytes, ahead = bytes ++ rest ∧ ret = bytes.length

variable {memory : Memory} {total : Nat} {address : Int} {ahead : List UInt8}

theorem Stands.behind {bytes rest : List UInt8}
    (stands : Stands memory total address (bytes ++ rest)) :
    Stands memory total (address + bytes.length) rest := by
  obtain ⟨held, start, reaches⟩ := stands
  rw [List.length_append] at reaches
  exact ⟨(Memory.holds_append.mp held).2, by omega, by omega⟩

theorem VarintAhead.ne_nil {limit : Nat} {read : Option (Nat × List UInt8)}
    (varint : VarintAhead limit ahead read) (positive : 0 < limit) : ahead ≠ [] := by
  cases varint with
  | ends run _ => simp [run.ne_nil]
  | overlong length _ =>
      intro empty
      rw [List.append_eq_nil_iff] at empty
      simp [empty.1] at length
      omega

theorem VarintAhead.length_lt {limit value : Nat} {rest : List UInt8}
    (varint : VarintAhead limit ahead (some (value, rest))) : rest.length < ahead.length := by
  cases varint with
  | ends run _ =>
      have := List.length_pos_of_ne_nil run.ne_nil
      rw [List.length_append]
      omega

/-! ## Numbers -/

/-- A 32-bit reader looks at the number ahead and no further. -/
theorem readVarint32At_safe {read : Option (Nat × List UInt8)} (varint : VarintAhead 5 ahead read)
    (stands : Stands memory total address ahead) :
    Safe (Event.Inside total)
      (fun result => Took (read.map Prod.snd) ahead result.ret ∧
        ∀ value rest, read = some (value, rest) → result.value = some (UInt32.ofNat value))
      (readVarint32At memory address) := by
  obtain ⟨held, start, reaches⟩ := stands
  cases varint with
  | @ends bytes rest value run short =>
      have read := readVarint32_run run short
        fun index inside => (Memory.holds_append.mp held).1.getElem? inside
      rw [List.length_append] at reaches
      rw [readVarint32At, read]
      refine Safe.bind (Safe.emit ⟨start, by simp only; omega⟩) fun _ _ => Safe.pure ⟨?_, ?_⟩
      · exact ⟨bytes, rfl, rfl⟩
      · rintro _ _ ⟨⟩
        rfl
  | @overlong bytes rest length marked =>
      have read := readVarint32_overlong (fun index => some (memory (address + index)))
        fun index bound => ⟨bytes[index], by
          rw [(Memory.holds_append.mp held).1.getElem? (by omega)]
          exact List.getElem?_eq_getElem (by omega), marked _ (List.getElem_mem _)⟩
      rw [List.length_append] at reaches
      rw [readVarint32At, read]
      exact Safe.bind (Safe.emit ⟨start, by simp only; omega⟩) fun _ _ => Safe.pure ⟨rfl, by simp⟩

/-- A 64-bit reader looks at the number ahead and no further. -/
theorem readVarint64At_safe {read : Option (Nat × List UInt8)} (varint : VarintAhead 10 ahead read)
    (stands : Stands memory total address ahead) :
    Safe (Event.Inside total)
      (fun result => Took (read.map Prod.snd) ahead result.ret ∧
        ∀ value rest, read = some (value, rest) → result.value = some (UInt64.ofNat value))
      (readVarint64At memory address) := by
  obtain ⟨held, start, reaches⟩ := stands
  cases varint with
  | @ends bytes rest value run short =>
      have read := readVarint64_run run short
        fun index inside => (Memory.holds_append.mp held).1.getElem? inside
      rw [List.length_append] at reaches
      rw [readVarint64At, read]
      refine Safe.bind (Safe.emit ⟨start, by simp only; omega⟩) fun _ _ => Safe.pure ⟨?_, ?_⟩
      · exact ⟨bytes, rfl, rfl⟩
      · rintro _ _ ⟨⟩
        rfl
  | @overlong bytes rest length marked =>
      have read := readVarint64_overlong (fun index => some (memory (address + index)))
        fun index bound => ⟨bytes[index], by
          rw [(Memory.holds_append.mp held).1.getElem? (by omega)]
          exact List.getElem?_eq_getElem (by omega), marked _ (List.getElem_mem _)⟩
      rw [List.length_append] at reaches
      rw [readVarint64At, read]
      exact Safe.bind (Safe.emit ⟨start, by simp only; omega⟩) fun _ _ => Safe.pure ⟨rfl, by simp⟩

/-! ## Fields -/

section

variable {size : UInt64} {verdict : Option (List UInt8)} {message cacheMessage : Message}
  {pMap : UInt32}

theorem setBoth_safe (index : UInt16) (change : Field → Field) (consume : Int) :
    Safe (Event.Inside total) (fun decoded => decoded.ret = consume)
      (setBoth message cacheMessage index change consume) :=
  Safe.bind (Safe.ofOption fun _ _ => trivial) fun _ _ =>
    Safe.bind (Safe.ofOption fun _ _ => trivial) fun _ _ => Safe.pure rfl

/-- The check behind a reader refuses exactly the numbers that were given up. -/
theorem Took.guard {n : Int} (took : Took verdict ahead n) (length : size.toNat = ahead.length)
    {accepted : Traced Event FieldDecoded}
    (whenAccepted : Safe (Event.Inside total) (fun decoded => decoded.ret = n) accepted) :
    Safe (Event.Inside total) (fun decoded => Took verdict ahead decoded.ret)
      (if n = -1 ∨ (size.toNat : Int) < n then return ⟨-1, message, cacheMessage⟩
        else accepted) := by
  cases verdict with
  | none => exact (if_pos (Or.inl took)).symm ▸ Safe.pure rfl
  | some rest =>
      obtain ⟨bytes, rfl, rfl⟩ := took
      rw [List.length_append] at length
      rw [if_neg (by omega)]
      exact whenAccepted.mono (fun _ => id) fun decoded ret => ⟨bytes, rfl, ret⟩

namespace FieldInstructionInteger

variable {α : Type} [FieldInteger α] {instruction : FieldInstructionInteger α}

/-- A copied value is read with the reader that its flags choose. -/
theorem read_safe {read : Option (Nat × List UInt8)}
    (varint : VarintAhead (if instruction.shortBits then 5 else 10) ahead read)
    (stands : Stands memory total address ahead) :
    Safe (Event.Inside total) (fun result => Took (read.map Prod.snd) ahead result.1)
      (instruction.read memory address) := by
  unfold FieldInstructionInteger.read
  by_cases short : instruction.shortBits = true
  · rw [if_pos short] at varint ⊢
    exact Safe.bind (readVarint32At_safe varint stands) fun _ took => Safe.pure took.1
  · rw [if_neg short] at varint ⊢
    by_cases narrow : FieldInteger.size α < 8
    · rw [if_pos narrow]
      exact Safe.undefined
    · rw [if_neg narrow]
      exact Safe.bind (readVarint64At_safe varint stands) fun _ took => Safe.pure took.1

theorem decode_safe (field : IntegerAhead instruction pMap ahead verdict)
    (stands : Stands memory total address ahead) (length : size.toNat = ahead.length) :
    Safe (Event.Inside total) (fun decoded => Took verdict ahead decoded.ret)
      (instruction.decode memory address size message cacheMessage pMap) := by
  unfold decode
  cases field with
  | @full bytes rest whole exact_ =>
      have reaches := stands.reaches
      rw [List.length_append] at length reaches
      rw [if_pos whole, if_neg (by omega)]
      refine Safe.bind (Safe.emit ⟨stands.start, by omega⟩) fun _ _ => ?_
      exact (setBoth_safe _ _ _).mono (fun _ => id)
        fun decoded ret => ⟨bytes, rfl, by rw [ret, exact_]⟩
  | cutShort whole short =>
      rw [if_pos whole, if_pos (by omega)]
      exact Safe.pure rfl
  | absent partial_ copy unmarked =>
      simp only [partial_, ne_eq, not_true_eq_false, if_false, copy, unmarked, Bool.false_eq_true]
      exact Safe.pure ⟨[], rfl, rfl⟩
  | copied partial_ copy present varint =>
      simp only [partial_, ne_eq, not_true_eq_false, if_false, copy, present, if_true]
      exact Safe.bind (read_safe varint stands) fun result took =>
        Took.guard took length (setBoth_safe _ _ _)
  | delta partial_ delta varint =>
      simp only [partial_, ne_eq, not_true_eq_false, if_false, delta]
      refine Safe.bind (readVarint64At_safe varint stands) fun result took =>
        Took.guard took.1 length ?_
      exact Safe.bind (Safe.ofOption fun _ _ => trivial) fun _ _ =>
        setBoth_safe _ _ _

end FieldInstructionInteger

namespace FieldInstructionString

variable {instruction : FieldInstructionString}

theorem decodeString_safe (sent : instruction.sent pMap)
    (field : StringAhead instruction pMap ahead verdict)
    (stands : Stands memory total address ahead) (length : size.toNat = ahead.length)
    (small : ahead.length < 2147483648) :
    Safe (Event.Inside total) (fun decoded => Took verdict ahead decoded.ret)
      (instruction.decodeString memory address size message cacheMessage) := by
  cases field with
  | @body bytes rest count _ varint exact_ =>
      refine Safe.bind (readVarint32At_safe varint stands) ?_
      rintro ⟨ret, value, touched⟩ ⟨⟨front, rfl, rfl⟩, stored⟩
      have isCount : value = some (UInt32.ofNat count) := stored _ _ rfl
      have cut : (UInt32.ofNat count).toNat = bytes.length := by rw [UInt32.toNat_ofNat', exact_]
      have reaches := stands.reaches
      simp only [List.length_append] at length reaches small
      simp only [isCount, Option.getD_some, cut]
      rw [if_neg (by omega)]
      refine Safe.bind (Safe.emit ⟨by have := stands.start; omega, by omega⟩) fun _ _ => ?_
      refine (setBoth_safe _ _ _).mono (fun _ => id) fun decoded ret =>
        ⟨front ++ bytes, by simp, ?_⟩
      rw [ret, List.length_append]
      exact toInt32_natCast (by omega)
  | @tooLong rest count _ varint long =>
      refine Safe.bind (readVarint32At_safe varint stands) ?_
      rintro ⟨ret, value, touched⟩ ⟨⟨front, rfl, rfl⟩, stored⟩
      have isCount : value = some (UInt32.ofNat count) := stored _ _ rfl
      have cut : (UInt32.ofNat count).toNat = count % 2 ^ 32 := UInt32.toNat_ofNat'
      simp only [isCount, Option.getD_some, cut]
      rw [if_pos (by omega)]
      exact Safe.pure rfl
  | overlong _ varint =>
      refine Safe.bind (readVarint32At_safe varint stands) ?_
      rintro ⟨ret, value, touched⟩ ⟨took, _⟩
      have refused : ret = -1 := took
      simp only [refused, true_or, if_true]
      exact Safe.pure rfl
  | absent notFull copy unmarked =>
      obtain whole | ⟨_, present⟩ := sent
      · exact absurd whole notFull
      · simp [unmarked] at present
  | delta notFull delta =>
      obtain whole | ⟨copy, _⟩ := sent
      · exact absurd whole notFull
      · simp [delta] at copy

theorem decode_safe (field : StringAhead instruction pMap ahead verdict)
    (stands : Stands memory total address ahead) (length : size.toNat = ahead.length)
    (small : ahead.length < 2147483648) :
    Safe (Event.Inside total) (fun decoded => Took verdict ahead decoded.ret)
      (instruction.decode memory address size message cacheMessage pMap) := by
  unfold decode
  by_cases whole : pMap = fullMap
  · rw [if_pos whole]
    exact decodeString_safe (Or.inl whole) field stands length small
  · rw [if_neg whole]
    cases kind : instruction.type with
    | copy =>
        by_cases present : marked pMap instruction.index = true
        · simp only [present, if_true]
          exact decodeString_safe (Or.inr ⟨kind, present⟩) field stands length small
        · simp only [present]
          have unsent : ¬instruction.sent pMap := by
            rintro (full | ⟨_, sent⟩)
            · exact whole full
            · exact present sent
          cases field with
          | absent =>
              exact Safe.bind (Safe.ofOption fun _ _ => trivial) fun _ _ =>
                Safe.bind (Safe.ofOption fun _ _ => trivial) fun _ _ =>
                  Safe.pure ⟨[], rfl, rfl⟩
          | delta _ delta => simp [kind] at delta
          | body sent => exact absurd sent unsent
          | tooLong sent => exact absurd sent unsent
          | overlong sent => exact absurd sent unsent
    | delta =>
        have unsent : ¬instruction.sent pMap := by
          rintro (full | ⟨copy, _⟩)
          · exact whole full
          · simp [kind] at copy
        cases field with
        | delta => exact Safe.pure rfl
        | absent _ copy => simp [kind] at copy
        | body sent => exact absurd sent unsent
        | tooLong sent => exact absurd sent unsent
        | overlong sent => exact absurd sent unsent

end FieldInstructionString

/-- An instruction reads its field and no further. -/
theorem FieldInstruction.decode_safe {instruction : FieldInstruction}
    (field : instruction.Ahead pMap ahead verdict) (stands : Stands memory total address ahead)
    (length : size.toNat = ahead.length) (small : ahead.length < 2147483648) :
    Safe (Event.Inside total) (fun decoded => Took verdict ahead decoded.ret)
      (instruction.decode memory address size message cacheMessage pMap) := by
  cases instruction with
  | int64 instruction => exact FieldInstructionInteger.decode_safe field stands length
  | uint64 instruction => exact FieldInstructionInteger.decode_safe field stands length
  | uint32 instruction => exact FieldInstructionInteger.decode_safe field stands length
  | string instruction => exact FieldInstructionString.decode_safe field stands length small

end

/-! ## Messages -/

/-- The loop over the instructions reads the fields and no further. -/
theorem decodeFields_safe {pMap : UInt32} {instructions : List FieldInstruction}
    {verdict : Option (List UInt8)} (fields : FieldsAhead pMap instructions ahead verdict)
    {cursor : Template.Cursor} (stands : Stands memory total cursor.begin_ ahead)
    (length : cursor.bufferSize = ahead.length) (positive : 0 ≤ cursor.consume)
    (small : cursor.consume + ahead.length < 2147483648) :
    Safe (Event.Inside total)
      (fun decoded => match verdict with
        | none => decoded.ret = -1
        | some rest => ∃ bytes, ahead = bytes ++ rest ∧ decoded.ret = cursor.consume + bytes.length)
      (Template.decodeFields memory pMap instructions cursor) := by
  induction fields generalizing cursor with
  | done => exact Safe.pure ⟨[], rfl, by simp⟩
  | @next instruction instructions ahead rest verdict field _ ih =>
      have size : (UInt64.ofNat cursor.bufferSize.toNat).toNat = ahead.length := by
        rw [UInt64.toNat_ofNat']
        omega
      rw [Template.decodeFields, if_neg (by omega)]
      refine Safe.bind (FieldInstruction.decode_safe field stands size (by omega)) ?_
      rintro decoded ⟨bytes, rfl, taken⟩
      rw [List.length_append] at length small
      rw [if_neg (by omega), taken]
      refine Safe.bind (Safe.emit (by simp only [Event.Inside]; omega)) fun _ _ => ?_
      have left : toInt32 (cursor.bufferSize - bytes.length) = rest.length := by
        rw [toInt32_of_range] <;> omega
      have sum : toInt32 (cursor.consume + bytes.length) = cursor.consume + bytes.length := by
        rw [toInt32_of_range] <;> omega
      refine (ih stands.behind left
        (by simp only [sum]; omega) (by simp only [sum]; omega)).mono (fun _ => id) ?_
      intro decoded met
      cases verdict with
      | none => exact met
      | some behind =>
          obtain ⟨later, rfl, ret⟩ := met
          refine ⟨bytes ++ later, by simp, ?_⟩
          simp only [sum] at ret
          rw [ret, List.length_append]
          omega
  | @failed instruction instructions ahead field =>
      have size : (UInt64.ofNat cursor.bufferSize.toNat).toNat = ahead.length := by
        rw [UInt64.toNat_ofNat']
        omega
      rw [Template.decodeFields, if_neg (by omega)]
      refine Safe.bind (FieldInstruction.decode_safe field stands size (by omega)) ?_
      intro decoded took
      rw [if_pos (show decoded.ret = -1 from took)]
      exact Safe.pure rfl

/-- A template reads the presence map and the fields of a message and no further. -/
theorem Template.decode_safe {tmp : Template} {map fields : List UInt8}
    {verdict : Option (List UInt8)} {size : UInt64} {messages : List Message}
    {cacheMessage : Message} (isMap : map.length = 4)
    (body : FieldsAhead (getUint32 map.reverse) tmp.instructions fields verdict)
    (stands : Stands memory total address (map ++ fields))
    (length : size.toNat = (map ++ fields).length) (small : (map ++ fields).length < 2147483648) :
    Safe (Event.Inside total)
      (fun decoded => Took verdict (map ++ fields) decoded.ret ∧
        decoded.messages.length = messages.length + 1)
      (tmp.decode memory address size messages cacheMessage) := by
  have held : memory.read address 4 = map := by
    rw [← isMap]
    exact (Memory.holds_append.mp stands.held).1
  have behind := stands.behind
  rw [isMap] at behind
  have start := stands.start
  have reaches := stands.reaches
  rw [List.length_append, isMap] at length small reaches
  have nonempty : size ≠ 0 := by
    rintro rfl
    simp at length
    omega
  have total : toInt32 (size.toNat : Int) = 4 + fields.length := by
    rw [toInt32_of_range] <;> omega
  have left : toInt32 ((4 + fields.length : Int) - 4) = fields.length := by
    rw [toInt32_of_range] <;> omega
  simp only [Template.decode, nonempty, if_false, held, total, left]
  refine Safe.bind (Safe.emit ⟨start, by omega⟩) fun _ _ => ?_
  refine Safe.bind (Safe.emit (by simp only [Event.Inside]; omega)) fun _ _ => ?_
  refine Safe.bind (Safe.ofOption fun _ _ => trivial) fun message _ => ?_
  refine Safe.bind (decodeFields_safe body behind
    rfl (by simp only; omega) (by simp only; omega)) fun decoded met => Safe.pure ⟨?_, by simp⟩
  cases verdict with
  | none => exact met
  | some rest =>
      obtain ⟨bytes, rfl, ret⟩ := met
      refine ⟨map ++ bytes, by simp, ?_⟩
      simp only at ret ⊢
      rw [ret, List.length_append, isMap]
      omega

/-! ## Streams -/

namespace Context

/-- An index that a table can hold selects a snapshot, if there is one. -/
theorem selectSnapshot_safe (tmp : Template) (array : SnapShotCacheArray) {cacheIndex : UInt64}
    (bounded : cacheIndex.toNat < maxSize) :
    Safe (Event.Inside total) (fun selected => selected.isSome)
      (selectSnapshot tmp array cacheIndex) := by
  unfold selectSnapshot
  split
  · rename_i beyond
    rw [resize_succ beyond bounded]
    refine Safe.bind (Safe.ofOption fun _ _ => trivial) fun _ _ => ?_
    refine Safe.bind (Safe.emit trivial) fun _ _ => ?_
    split
    · exact Safe.pure rfl
    · exact Safe.undefined
  · refine Safe.bind (Safe.emit trivial) fun _ _ => ?_
    exact Safe.bind (Safe.ofOption fun _ _ => trivial) fun _ _ => Safe.pure rfl

/-- What one message leaves behind, from what its template's `decode` leaves behind. -/
theorem decodeMessage_safe {cursor : Cursor} {tmp : Template} {body : List UInt8}
    (verdict : Option (List UInt8)) {good : Pass Cursor Decoded → Prop}
    (decodes : ∀ cacheMessage, Safe (Event.Inside total)
      (fun decoded => Took verdict body decoded.ret ∧
        (verdict.isSome → decoded.messages.length = cursor.messages.length + 1))
      (tmp.decode memory cursor.begin_ cursor.size cursor.messages cacheMessage))
    (length : cursor.size.toNat = body.length)
    (failed : verdict = none → ∀ arrays,
      good (.leave ⟨[], { cursor.context with templateCacheArrays := arrays }⟩))
    (went : ∀ bytes rest messages arrays, verdict = some rest → body = bytes ++ rest →
      messages.length = cursor.messages.length + 1 →
      good (.again ⟨cursor.begin_ + bytes.length, cursor.size - UInt64.ofInt (bytes.length : Nat),
        messages, { cursor.context with templateCacheArrays := arrays }⟩))
    {cacheIndex : UInt64} (bounded : cacheIndex.toNat < maxSize) :
    Safe (Event.Inside total) good (decodeMessage memory cursor tmp cacheIndex) := by
  refine Safe.bind (Safe.ofOption fun _ _ => trivial) fun array _ => ?_
  refine Safe.bind (selectSnapshot_safe tmp array bounded) ?_
  rintro (_ | ⟨grown, cacheMessage⟩) selected
  · simp at selected
  · refine Safe.bind (decodes cacheMessage) ?_
    rintro ⟨ret, messages, updated⟩ ⟨took, more⟩
    cases verdict with
    | none =>
        have refused : ret = -1 := took
        simp only [refused, if_true]
        exact Safe.pure (failed rfl _)
    | some rest =>
        obtain ⟨bytes, rfl, rfl⟩ := took
        rw [List.length_append] at length
        simp only
        rw [if_neg (by omega)]
        refine Safe.bind (Safe.emit (by simp only [Event.Inside]; omega)) fun _ _ => ?_
        exact Safe.pure (went bytes rest messages _ rfl rfl (more rfl))

/-- A pass that gets past the header goes on with the message. -/
theorem decodePass_safe_of_header {end_ : Int} {cursor : Cursor} {rest body : List UInt8}
    {id index : Nat} {good : Pass Cursor Decoded → Prop}
    (idAhead : VarintAhead 5 ahead (some (id, rest)))
    (indexAhead : VarintAhead 10 rest (some (index, body)))
    (stands : Stands memory total cursor.begin_ ahead) (last : end_ = total - 1)
    (length : cursor.size.toNat = ahead.length)
    (goesOn : ∀ next : Cursor, Stands memory total next.begin_ body →
      next.size.toNat = body.length → next.messages = cursor.messages →
      next.context = cursor.context → Safe (Event.Inside total) good
        (match next.context.templates.getTemplate (UInt32.ofNat id) with
          | none => return next.stop
          | some tmp => decodeMessage memory next tmp (UInt64.ofNat index))) :
    Safe (Event.Inside total) good (decodePass memory end_ cursor) := by
  have nonempty := List.length_pos_of_ne_nil (idAhead.ne_nil (by decide))
  have reaches := stands.reaches
  rw [decodePass, if_pos (by omega)]
  refine Safe.bind (readVarint32At_safe idAhead stands) ?_
  rintro ⟨idRet, idValue, _⟩ ⟨⟨idBytes, rfl, rfl⟩, idStored⟩
  have isId : idValue = some (UInt32.ofNat id) := idStored _ _ rfl
  rw [List.length_append] at length
  simp only [refuses_eq_false cursor.size (n := idBytes.length) (by omega),
    Bool.false_eq_true, if_false, isId, Option.getD_some]
  refine Safe.bind (Safe.emit (by simp only [Event.Inside]; omega)) fun _ _ => ?_
  have left := toNat_sub_ofInt cursor.size (n := idBytes.length) (by omega)
  refine Safe.bind (readVarint64At_safe indexAhead stands.behind) ?_
  rintro ⟨indexRet, indexValue, _⟩ ⟨⟨indexBytes, rfl, rfl⟩, indexStored⟩
  have isIndex : indexValue = some (UInt64.ofNat index) := indexStored _ _ rfl
  simp only [List.length_append] at length
  simp only [refuses_eq_false (cursor.size - UInt64.ofInt (idBytes.length : Nat))
    (n := indexBytes.length) (by omega), Bool.false_eq_true, if_false, isIndex, Option.getD_some]
  refine Safe.bind (Safe.emit (by simp only [Event.Inside]; omega)) fun _ _ => ?_
  have left' := toNat_sub_ofInt (cursor.size - UInt64.ofInt (idBytes.length : Nat))
    (n := indexBytes.length) (by omega)
  exact goesOn ⟨_, _, _, _⟩ stands.behind.behind (by simp only; omega) rfl rfl

/-- Where the loop stands in a stream that puts out `expected` messages in the end. -/
def Follows (templates : Templates) (memory : Memory) (total : Nat) (expected : Option Nat)
    (cursor : Cursor) : Prop :=
  ∃ ahead count, StreamAhead templates ahead count ∧ Stands memory total cursor.begin_ ahead ∧
    cursor.size.toNat = ahead.length ∧ cursor.context.templates = templates ∧
    count.map (cursor.messages.length + ·) = expected

/-- What is left behind by a stream that puts out `expected` messages, or fails. -/
def Leaves (templates : Templates) (expected : Option Nat) (result : Decoded) : Prop :=
  result.context.templates = templates ∧
    match expected with
    | none => result.messages = []
    | some count => result.messages.length = count

theorem decodePass_safe {templates : Templates} {expected : Option Nat} {end_ : Int}
    (last : end_ = total - 1) {cursor : Cursor}
    (follows : Follows templates memory total expected cursor) :
    Safe (Event.Inside total)
      (Keeps (fun next => Follows templates memory total expected next ∧
          next.size.toNat < cursor.size.toNat) (Leaves templates expected))
      (decodePass memory end_ cursor) := by
  obtain ⟨ahead, count, stream, stands, length, sameTemplates, rfl⟩ := follows
  have reaches := stands.reaches
  have start := stands.start
  have stopped : ∀ next : Cursor, next.messages = cursor.messages → next.context = cursor.context →
      Leaves templates ((some 0).map (cursor.messages.length + ·))
        ⟨next.messages, next.context⟩ := by
    intro next messages context
    exact ⟨context ▸ sameTemplates, by simp [messages]⟩
  cases stream with
  | done =>
      rw [List.length_nil] at reaches
      rw [decodePass, if_neg (by omega)]
      exact Safe.pure (stopped cursor rfl rfl)
  | badId idAhead =>
      have nonempty := List.length_pos_of_ne_nil (idAhead.ne_nil (by decide))
      rw [decodePass, if_pos (by omega)]
      refine Safe.bind (readVarint32At_safe idAhead stands) ?_
      rintro ⟨ret, value, touched⟩ ⟨took, _⟩
      have refused : ret = -1 := took
      simp only [refused, refuses, true_or, decide_true, if_true]
      exact Safe.pure (stopped cursor rfl rfl)
  | badIndex idAhead indexAhead =>
      have nonempty := List.length_pos_of_ne_nil (idAhead.ne_nil (by decide))
      rw [decodePass, if_pos (by omega)]
      refine Safe.bind (readVarint32At_safe idAhead stands) ?_
      rintro ⟨ret, value, touched⟩ ⟨⟨bytes, rfl, rfl⟩, _⟩
      rw [List.length_append] at length
      simp only [refuses_eq_false cursor.size (n := bytes.length) (by omega),
        Bool.false_eq_true, if_false]
      refine Safe.bind (Safe.emit (by simp only [Event.Inside]; omega)) fun _ _ => ?_
      refine Safe.bind (readVarint64At_safe indexAhead stands.behind) ?_
      rintro ⟨ret, value, touched⟩ ⟨took, _⟩
      have refused : ret = -1 := took
      simp only [refused, refuses, true_or, decide_true, if_true]
      exact Safe.pure (stopped _ rfl rfl)
  | unknown idAhead indexAhead absent =>
      refine decodePass_safe_of_header idAhead indexAhead stands last length ?_
      intro next _ _ messages context
      rw [context, sameTemplates, absent]
      exact Safe.pure (stopped next messages context)
  | bare idAhead indexAhead found bounded =>
      refine decodePass_safe_of_header idAhead indexAhead stands last length ?_
      intro next _ nextLength messages context
      have empty : next.size = 0 := UInt64.toNat_inj.mp nextLength
      rw [context, sameTemplates, found]
      refine decodeMessage_safe none ?_ nextLength ?_ (by simp) bounded
      · intro cacheMessage
        rw [Template.decode, if_pos empty]
        exact Safe.pure ⟨rfl, by simp⟩
      · intro _ arrays
        exact ⟨by simp only [context, sameTemplates], rfl⟩
  | failed idAhead indexAhead found bounded isMap few fields =>
      refine decodePass_safe_of_header idAhead indexAhead stands last length ?_
      intro next nextStands nextLength messages context
      have nextReaches := nextStands.reaches
      have nextStart := nextStands.start
      rw [context, sameTemplates, found]
      refine decodeMessage_safe none ?_ nextLength ?_ (by simp) bounded
      · intro cacheMessage
        exact (Template.decode_safe isMap fields nextStands nextLength
          (by rw [List.length_append]; omega)).mono
          (fun _ => id) fun decoded met => ⟨met.1, by simp⟩
      · intro _ arrays
        exact ⟨by simp only [context, sameTemplates], rfl⟩
  | @message _ _ map fields later _ _ tmp count idAhead indexAhead found bounded isMap few body
      stream =>
      have idShorter := idAhead.length_lt
      have indexShorter := indexAhead.length_lt
      refine decodePass_safe_of_header idAhead indexAhead stands last length ?_
      intro next nextStands nextLength messages context
      have nextReaches := nextStands.reaches
      have nextStart := nextStands.start
      rw [context, sameTemplates, found]
      refine decodeMessage_safe (some later) ?_ nextLength (by simp) ?_ bounded
      · intro cacheMessage
        exact (Template.decode_safe isMap body nextStands nextLength
          (by rw [List.length_append]; omega)).mono
          (fun _ => id) fun decoded met => ⟨met.1, fun _ => met.2⟩
      · rintro bytes _ messages' arrays ⟨⟩ split more
        rw [split] at nextStands nextLength
        rw [List.length_append] at nextLength
        have left : (next.size - UInt64.ofInt (bytes.length : Nat)).toNat = later.length := by
          rw [toNat_sub_ofInt _ (by omega)]
          omega
        have shorter := congrArg List.length split
        simp only [List.length_append] at shorter indexShorter
        refine ⟨⟨later, count, stream, nextStands.behind, left,
          by simp only [context, sameTemplates], ?_⟩, by simp only; omega⟩
        · rw [more, messages, Option.map_map]
          congr 1
          funext count
          simp only [Function.comp_apply]
          omega

/-- `decode` of a stream that ends inside its buffer stays inside, and puts out every message or
none. -/
theorem decode_safe {context : Context} {buffer : List UInt8} {count : Option Nat}
    (stream : StreamAhead context.templates buffer count) (countable : buffer.length < 2 ^ 64)
    (outside : Memory) (messages : List Message) (fuel : Nat) :
    Safe (Event.Inside buffer.length)
      (Leaves context.templates (count.map (messages.length + ·)))
      (context.decode fuel (Memory.ofBuffer buffer outside) (UInt64.ofNat buffer.length)
        messages) := by
  have size : (UInt64.ofNat buffer.length).toNat = buffer.length := by
    rw [UInt64.toNat_ofNat', Nat.mod_eq_of_lt (by omega)]
  have held := Memory.holds_ofBuffer buffer outside
  have stands : Stands (Memory.ofBuffer buffer outside) buffer.length 0 buffer :=
    ⟨held, by omega, by omega⟩
  have follows : Follows context.templates (Memory.ofBuffer buffer outside) buffer.length
      (count.map (messages.length + ·)) (context.start (UInt64.ofNat buffer.length) messages) :=
    ⟨buffer, count, stream, stands, size, rfl, rfl⟩
  rw [decode]
  split
  · rename_i empty
    have nothing : buffer = [] := by
      rw [empty] at size
      exact List.length_eq_zero_iff.mp size.symm
    subst nothing
    have last : (-1 : Int) = (([] : List UInt8).length : Nat) - 1 := by simp
    have here := decodePass_safe last follows
    rw [decodePass, if_neg (by simp [start])] at here
    exact Safe.pure (here.2 _ rfl)
  · refine Safe.loop (fun next _ follows => ?_) fuel follows
    refine (decodePass_safe (by rw [size]) follows).mono (fun _ => id) fun exit kept => ?_
    cases exit with
    | leave result => exact kept
    | again later => exact kept.1

end Context

/-! ## Results -/

/-- The reader of an integer is no wider than its variable. -/
def FieldInstruction.Roomy : FieldInstruction → Prop
  | uint32 instruction => instruction.shortBits = true
  | _ => True

/-- A message has a field for every instruction. -/
def Message.Covers (instructions : List FieldInstruction) (message : Message) : Prop :=
  ∀ instruction ∈ instructions, (message.getField instruction.index).isSome

/-- A message has fields at the same indices as another. -/
def Message.Alike (before after : Message) : Prop :=
  ∀ index, (after.getField index).isSome = (before.getField index).isSome

theorem Message.Alike.refl (message : Message) : message.Alike message := fun _ => rfl

theorem Message.Covers.alike {instructions : List FieldInstruction} {before after : Message}
    (covers : before.Covers instructions) (alike : before.Alike after) :
    after.Covers instructions := by
  intro instruction member
  rw [alike]
  exact covers instruction member

theorem Message.exists_modifyField {message : Message} {index : UInt16}
    (found : (message.getField index).isSome) (change : Field → Field) :
    ∃ updated, message.modifyField index change = some updated ∧ message.Alike updated := by
  obtain ⟨field, isField⟩ := Option.isSome_iff_exists.mp found
  refine ⟨_, modifyField_of_getField isField change, fun other => ?_⟩
  unfold getField setField
  split
  · rfl
  · rw [Bool.eq_iff_iff, isSome_getElem?, isSome_getElem?, List.length_set]

section

variable {size : UInt64} {message cacheMessage : Message} {pMap : UInt32}

/-- A field was decoded, and both messages have the fields they had. -/
abbrev FieldMeets (message cacheMessage : Message) (decoding : Traced Event FieldDecoded) : Prop :=
  Meets (fun decoded => message.Alike decoded.message ∧ cacheMessage.Alike decoded.cacheMessage)
    decoding

theorem fieldMeets_pure (ret : Int) :
    FieldMeets message cacheMessage (pure ⟨ret, message, cacheMessage⟩) :=
  Meets.pure ⟨.refl _, .refl _⟩

theorem setBoth_meets {index : UInt16} (found : (message.getField index).isSome)
    (cached : (cacheMessage.getField index).isSome) (change : Field → Field) (consume : Int) :
    FieldMeets message cacheMessage (setBoth message cacheMessage index change consume) := by
  obtain ⟨updated, modified, alike⟩ := Message.exists_modifyField found change
  obtain ⟨cacheUpdated, cacheModified, cacheAlike⟩ := Message.exists_modifyField cached change
  rw [setBoth, modified, cacheModified]
  exact Meets.pure ⟨alike, cacheAlike⟩

theorem FieldInstructionInteger.decode_meets {α : Type} [FieldInteger α]
    {instruction : FieldInstructionInteger α}
    (roomy : instruction.shortBits = true ∨ 8 ≤ FieldInteger.size α)
    (found : (message.getField instruction.index).isSome)
    (cached : (cacheMessage.getField instruction.index).isSome) :
    FieldMeets message cacheMessage
      (instruction.decode memory address size message cacheMessage pMap) := by
  have read : Meets (fun _ => True) (instruction.read memory address) := by
    unfold FieldInstructionInteger.read
    split
    · exact ⟨_, rfl, trivial⟩
    · rw [if_neg (by simp_all)]
      exact ⟨_, rfl, trivial⟩
  have stored := setBoth_meets found cached
  unfold decode
  split
  · split
    · exact fieldMeets_pure _
    · exact (Meets.emit _).bind fun _ _ => stored _ _
  · split
    · split
      · refine read.bind fun result _ => ?_
        dsimp only
        split
        · exact fieldMeets_pure _
        · exact stored _ _
      · exact fieldMeets_pure _
    · refine (Meets.of_outcome rfl).bind fun result _ => ?_
      dsimp only
      split
      · exact fieldMeets_pure _
      · obtain ⟨cacheField, isField⟩ := Option.isSome_iff_exists.mp cached
        rw [isField]
        exact stored _ _

theorem FieldInstructionString.decodeString_meets {instruction : FieldInstructionString}
    (found : (message.getField instruction.index).isSome)
    (cached : (cacheMessage.getField instruction.index).isSome) :
    FieldMeets message cacheMessage
      (instruction.decodeString memory address size message cacheMessage) := by
  refine (Meets.of_outcome rfl).bind fun result _ => ?_
  dsimp only
  split
  · exact fieldMeets_pure _
  · exact (Meets.emit _).bind fun _ _ => setBoth_meets found cached _ _

theorem FieldInstructionString.decode_meets {instruction : FieldInstructionString}
    (found : (message.getField instruction.index).isSome)
    (cached : (cacheMessage.getField instruction.index).isSome) :
    FieldMeets message cacheMessage
      (instruction.decode memory address size message cacheMessage pMap) := by
  unfold decode
  split
  · exact decodeString_meets found cached
  · split
    · split
      · exact decodeString_meets found cached
      · obtain ⟨cacheField, isField⟩ := Option.isSome_iff_exists.mp cached
        obtain ⟨updated, modified, alike⟩ :=
          Message.exists_modifyField found (·.setString cacheField.getString)
        rw [isField, Traced.ofOption_some, Traced.pure_bind, modified]
        exact Meets.pure ⟨alike, .refl _⟩
    · exact fieldMeets_pure _

theorem FieldInstruction.decode_meets {instruction : FieldInstruction} (roomy : instruction.Roomy)
    (found : (message.getField instruction.index).isSome)
    (cached : (cacheMessage.getField instruction.index).isSome) :
    FieldMeets message cacheMessage
      (instruction.decode memory address size message cacheMessage pMap) := by
  cases instruction with
  | int64 instruction =>
      exact FieldInstructionInteger.decode_meets (Or.inr (by decide)) found cached
  | uint64 instruction =>
      exact FieldInstructionInteger.decode_meets (Or.inr (by decide)) found cached
  | uint32 instruction => exact FieldInstructionInteger.decode_meets (Or.inl roomy) found cached
  | string instruction => exact FieldInstructionString.decode_meets found cached

theorem decodeFields_meets {instructions : List FieldInstruction} {cursor : Template.Cursor}
    (roomy : ∀ instruction ∈ instructions, instruction.Roomy)
    (covers : cursor.message.Covers instructions)
    (cacheCovers : cursor.cacheMessage.Covers instructions) :
    Meets (fun _ => True) (Template.decodeFields memory pMap instructions cursor) := by
  induction instructions generalizing cursor with
  | nil => exact Meets.pure trivial
  | cons instruction instructions ih =>
      unfold Template.decodeFields
      split
      · exact (Meets.emit _).bind fun _ _ => Meets.pure trivial
      · refine (FieldInstruction.decode_meets (roomy _ (List.mem_cons_self ..))
          (covers _ (List.mem_cons_self ..)) (cacheCovers _ (List.mem_cons_self ..))).bind ?_
        rintro decoded ⟨alike, cacheAlike⟩
        split
        · exact Meets.pure trivial
        · refine (Meets.emit _).bind fun _ _ => ih ?_ ?_ ?_
          · exact fun other member => roomy other (List.mem_cons_of_mem _ member)
          · exact Message.Covers.alike (fun other member =>
              covers other (List.mem_cons_of_mem _ member)) alike
          · exact Message.Covers.alike (fun other member =>
              cacheCovers other (List.mem_cons_of_mem _ member)) cacheAlike

end

namespace Context

/-- The message at a cursor is for a snapshot that is there, or can be made up, and the template's
instructions find their fields in it and in the template's message. -/
def Served (memory : Memory) (end_ : Int) (cursor : Cursor) : Prop :=
  cursor.begin_ ≤ end_ → ∀ tmp cacheIndex, header memory cursor = some (tmp, cacheIndex) →
    ∃ array grown message cacheMessage,
      cursor.context.templateCacheArrays[tmp.index.toNat]? = some array ∧
      Selects tmp array cacheIndex grown cacheMessage ∧ tmp.inputMessage = some message ∧
      message.Covers tmp.instructions ∧ cacheMessage.Covers tmp.instructions ∧
      ∀ instruction ∈ tmp.instructions, instruction.Roomy

/-- A pass that finds its snapshot comes to its end. -/
theorem Served.decodePass {end_ : Int} {cursor : Cursor} (served : Served memory end_ cursor) :
    Meets (fun _ => True) (Context.decodePass memory end_ cursor) := by
  by_cases before : cursor.begin_ ≤ end_
  · rw [Meets, outcome_decodePass before]
    cases accepted : header memory cursor with
    | none => exact ⟨_, rfl, trivial⟩
    | some found =>
        obtain ⟨tmp, cacheIndex⟩ := found
        obtain ⟨array, grown, message, cacheMessage, slot, selects, isMessage, covers, cacheCovers,
          roomy⟩ := served before tmp cacheIndex accepted
        have decoded : Meets (fun _ => True) (tmp.decode memory (behindHeader memory cursor).begin_
            (behindHeader memory cursor).size (behindHeader memory cursor).messages
            cacheMessage) := by
          unfold Template.decode
          split
          · exact Meets.pure trivial
          · rw [isMessage]
            refine (Meets.emit _).bind fun _ _ => ?_
            refine (Meets.emit _).bind fun _ _ => ?_
            exact (decodeFields_meets roomy covers cacheCovers).bind fun _ _ => Meets.pure trivial
        obtain ⟨decoded, returned, _⟩ := decoded
        exact ⟨_, outcome_decodeMessage slot selects returned, trivial⟩
  · rw [decodePass_of_past before]
    exact Meets.pure trivial

/-- `decode` of a stream that ends inside its buffer returns if every message finds its snapshot. -/
theorem decode_returns {context : Context} {buffer : List UInt8} {count : Option Nat}
    (stream : StreamAhead context.templates buffer count) (countable : buffer.length < 2 ^ 64)
    {outside : Memory} {messages : List Message}
    (served : ∀ cursor, Reaches (passes buffer outside)
      (context.start (UInt64.ofNat buffer.length) messages) cursor →
        Served (Memory.ofBuffer buffer outside) ((UInt64.ofNat buffer.length).toNat - 1) cursor) :
    ∃ result, context.Decodes (Memory.ofBuffer buffer outside) (UInt64.ofNat buffer.length)
      messages result := by
  have size : (UInt64.ofNat buffer.length).toNat = buffer.length := by
    rw [UInt64.toNat_ofNat', Nat.mod_eq_of_lt (by omega)]
  have follows : Follows context.templates (Memory.ofBuffer buffer outside) buffer.length
      (count.map (messages.length + ·)) (context.start (UInt64.ofNat buffer.length) messages) :=
    ⟨buffer, count, stream, ⟨Memory.holds_ofBuffer buffer outside, by simp [start],
      by simp [start]⟩, size, rfl, rfl⟩
  simp only [decodes_iff]
  refine exists_returns_of_variant (fun cursor : Cursor => cursor.size.toNat)
    (fun next reached follows => ?_) follows
  obtain ⟨exit, outcome, _⟩ := (served next reached).decodePass
  refine ⟨exit, outcome, ?_⟩
  rintro later rfl
  exact (decodePass_safe (by rw [size]) follows).2 _ outcome

end Context

/-! ## Runs -/

/-- Along successive `decode` calls every message finds its snapshot. -/
def AllServed : Context → List (List UInt8 × Memory) → Prop
  | _, [] => True
  | context, (buffer, outside) :: fed => ∀ messages : List Message,
      (∀ cursor, Reaches (Context.passes buffer outside)
        (context.start (UInt64.ofNat buffer.length) messages) cursor →
          Context.Served (Memory.ofBuffer buffer outside)
            ((UInt64.ofNat buffer.length).toNat - 1) cursor) ∧
      ∀ result, context.Decodes (Memory.ofBuffer buffer outside) (UInt64.ofNat buffer.length)
        messages result → AllServed result.context fed

/-- Successive `decode` calls, each on a buffer with what surrounds it in memory, return.  Reads and
counts stay inside the buffer, no message is cut short, and a stream with a message that fails puts
out nothing. -/
def StaysInside : Context → List (List UInt8 × Memory) → Prop
  | _, [] => True
  | context, (buffer, outside) :: fed => ∀ messages : List Message,
      (∀ fuel, ∀ event ∈ (context.decode fuel (Memory.ofBuffer buffer outside)
        (UInt64.ofNat buffer.length) messages).events, event.Inside buffer.length) ∧
      ∃ result, context.Decodes (Memory.ofBuffer buffer outside) (UInt64.ofNat buffer.length)
        messages result ∧
        (StreamAhead context.templates buffer none → result.messages = []) ∧
          StaysInside result.context fed

theorem IndexedFrom.lt_of_mem {instructions : List FieldInstruction} {first : Nat}
    (indexed : IndexedFrom first instructions) {instruction : FieldInstruction}
    (member : instruction ∈ instructions) :
    instruction.index.toNat < first + instructions.length := by
  induction instructions generalizing first with
  | nil => exact absurd member (by simp)
  | cons head instructions ih =>
      obtain ⟨index, indexed⟩ := indexed
      rw [List.length_cons]
      rcases List.mem_cons.mp member with rfl | later
      · omega
      · have := ih indexed later
        omega

/-- A message of the instructions' types has a field for each. -/
theorem Message.Fits.covers {instructions : List FieldInstruction} {message : Message}
    (indexed : IndexedFrom 0 instructions) (fits : message.Fits instructions) :
    message.Covers instructions := by
  intro instruction member
  have length : message.fields.length = instructions.length := by
    simpa [Message.types] using congrArg List.length fits.types
  have inside : instruction.index.toNat < message.fields.length := by
    have := indexed.lt_of_mem member
    omega
  have counted : ¬instruction.index ≥ message.fieldCount := by
    rw [ge_iff_le, UInt16.le_iff_toNat_le, fits.counted]
    omega
  rw [Message.getField, if_neg counted, List.getElem?_eq_getElem inside]
  rfl

theorem FieldInstruction.Sound.roomy {instruction : FieldInstruction} (sound : instruction.Sound) :
    instruction.Roomy := by
  cases instruction with
  | uint32 instruction => exact sound.trans (by decide)
  | _ => trivial

section

open Context

/-- What is put out for a token that is known or next finds its snapshot in a decoder that missed
nothing. -/
theorem DecoderFollows.served {added : List Template} (typed : ∀ tmp ∈ added, tmp.WellTyped)
    {history : List Call} {memory : Memory} {end_ : Int} {cursor : Cursor}
    (follows : DecoderFollows added history cursor.context)
    (next : ∀ tmp cacheIndex, header memory cursor = some (tmp, cacheIndex) →
      cacheIndex.toNat ≤ (tokensSeen history tmp.id).length ∧ cacheIndex.toNat < maxSize) :
    Served memory end_ cursor := by
  intro _ tmp cacheIndex named
  obtain ⟨id, known⟩ := getTemplate_of_header named
  rw [follows.templates] at known
  obtain ⟨_, _, _, _, sameId⟩ := Templates.getTemplate_ofList known
  obtain ⟨place, bound⟩ := next tmp cacheIndex named
  obtain ⟨array, slot, tracks⟩ := follows.tables id tmp known
  have wellTyped := Templates.wellTyped_of_getTemplate typed known
  obtain ⟨default, isDefault, counted, fields⟩ := wellTyped.default
  have fits := wellTyped.reset_fits isDefault cacheIndex
  have types : default.types = tmp.instructions.map FieldInstruction.fieldType := by
    simp [Message.types, fields, Function.comp_def, Field.new]
  have covers := Message.Fits.covers wellTyped.indexed ⟨types, counted⟩
  have roomy : ∀ instruction ∈ tmp.instructions, instruction.Roomy := fun instruction member =>
    (wellTyped.sound instruction member).roomy
  rw [sameId, ← tracks.length_eq] at place
  rcases Nat.lt_or_eq_of_le place with there | fresh
  · obtain ⟨token, at_⟩ : ∃ token, (tokensSeen history id)[cacheIndex.toNat]? = some token :=
      ⟨_, List.getElem?_eq_getElem (by rwa [← tracks.length_eq])⟩
    obtain ⟨snapshot, _, stored, _, held⟩ := tracks.snapshots _ _ at_
    exact ⟨array, array, default, snapshot, slot, Or.inl ⟨rfl, stored⟩, isDefault, covers,
      held.fits.covers wellTyped.indexed, roomy⟩
  · exact ⟨array, _, default, _, slot,
      Or.inr ⟨rfl, Nat.le_of_eq fresh.symm, bound, default, isDefault, rfl⟩, isDefault, covers,
      fits.covers wellTyped.indexed, roomy⟩

/-- The bytes of a call, alone in a buffer, find their snapshot in a decoder that missed nothing. -/
theorem DecoderFollows.allServed {added : List Template} (few : added.length ≤ 255)
    (typed : ∀ tmp ∈ added, tmp.WellTyped) {history : List Call} {decoder : Context}
    (follows : DecoderFollows added history decoder) {call : Call} {tmp : Template}
    (found : (Templates.ofList added).getTemplate call.templateID = some tmp)
    (fits : call.message.Fits tmp.instructions)
    (countable : (tokensSeen (history ++ [call]) call.templateID).length ≤ maxSize)
    {outside : Memory} {fed : List (List UInt8 × Memory)}
    (small : (wireBytes tmp history call).length < 2147483648)
    (later : ∀ decoder', DecoderFollows added (history ++ [call]) decoder' →
      AllServed decoder' fed) :
    AllServed decoder ((wireBytes tmp history call, outside) :: fed) := by
  intro messages
  have size : (UInt64.ofNat (wireBytes tmp history call).length).toNat =
      (wireBytes tmp history call).length := by
    rw [UInt64.toNat_ofNat', Nat.mod_eq_of_lt (by omega)]
  have held := Memory.holds_ofBuffer (wireBytes tmp history call) outside
  obtain ⟨_, _, _, _, sameId⟩ := Templates.getTemplate_ofList found
  obtain ⟨place, rest, split, known, bound⟩ := wireBytes_eq_header tmp history call
  have one := List.length_pos_iff.mpr (wireBytes_ne_nil tmp history call)
  have here : Served (Memory.ofBuffer (wireBytes tmp history call) outside)
      ((UInt64.ofNat (wireBytes tmp history call).length).toNat - 1)
      (decoder.start (UInt64.ofNat (wireBytes tmp history call).length) messages) := by
    refine follows.served typed fun tmp' cacheIndex named => ?_
    have isHeader : header (Memory.ofBuffer (wireBytes tmp history call) outside) (decoder.start
        (UInt64.ofNat (wireBytes tmp history call).length) messages) = _ :=
      header_of_holds (by rw [start, follows.templates, sameId, found])
        (by rw [← split]; exact held) (by rw [start, size, split]; simp)
    obtain ⟨rfl, rfl⟩ := Prod.mk.inj (Option.some_inj.mp (isHeader.symm.trans named))
    have exact_ : (UInt64.ofNat place).toNat = place := by
      rw [UInt64.toNat_ofNat', Nat.mod_eq_of_lt ((bound.trans_le countable).trans maxSize_lt)]
    rw [exact_, sameId]
    exact ⟨known, bound.trans_le countable⟩
  obtain ⟨filled, size', decoder', _, _, _, outcome, follows'⟩ := (iff_late.mp follows).step few
    typed found fits (by simp [tokensSeen]) (by simpa using countable)
    ((UInt64.ofNat (wireBytes tmp history call).length).toNat - 1)
    (decoder.start (UInt64.ofNat (wireBytes tmp history call).length) messages) rfl
    (by simp only [start]; omega) held (by rw [start, size]; exact Nat.le_refl _)
    (by rw [start, size]; exact small)
  have follows' := iff_late.mpr follows'
  rw [← passes] at outcome
  obtain ⟨next, again, past, rfl⟩ : ∃ next : Cursor,
      (passes (wireBytes tmp history call) outside
        (decoder.start (UInt64.ofNat (wireBytes tmp history call).length) messages)).outcome =
          some (.again next) ∧
      ¬next.begin_ ≤ (UInt64.ofNat (wireBytes tmp history call).length).toNat - 1 ∧
      next.context = decoder' :=
    ⟨_, outcome, by simp only [start, List.nil_append]; omega, rfl⟩
  have leaves : passes (wireBytes tmp history call) outside next = pure next.stop :=
    decodePass_of_past past
  refine ⟨fun cursor reached => ?_, fun result decoded => later _ ?_⟩
  · cases reached with
    | refl => exact here
    | step again' reached =>
        obtain rfl := Pass.again.inj (Option.some_inj.mp (again.symm.trans again'))
        cases reached with
        | refl => exact fun inside => absurd inside past
        | step again'' _ =>
            rw [leaves] at again''
            cases again''
  · have returned := (returns_iff_of_again again).mpr (.of_leave (by rw [leaves]; rfl))
    obtain rfl := (decodes_iff.mp decoded).unique returned
    exact follows'
end

/-- A run of `decode` calls stays inside its buffers if every item that starts in a buffer also
ends in it, messages start where fewer than 2 GiB are left, and every message finds its snapshot. -/
theorem decode_stays_inside {templates : Templates} {fed : List (List UInt8 × Memory)}
    (contained : ∀ call ∈ fed, call.1.length < 2 ^ 64 ∧
      ∃ count, StreamAhead templates call.1 count)
    (served : AllServed (Context.new templates) fed) :
    StaysInside (Context.new templates) fed := by
  suffices run : ∀ context : Context, context.templates = templates → AllServed context fed →
      StaysInside context fed from run _ rfl served
  clear served
  induction fed with
  | nil => exact fun _ _ _ => trivial
  | cons call fed ih =>
      obtain ⟨buffer, outside⟩ := call
      obtain ⟨countable, count, stream⟩ := contained (buffer, outside) (by simp)
      rintro context rfl served messages
      obtain ⟨here, later⟩ := served messages
      have safe := Context.decode_safe stream countable outside messages
      obtain ⟨result, decoded⟩ := Context.decode_returns stream countable here
      obtain ⟨fuel, returned⟩ := decoded
      refine ⟨fun fuel => (safe fuel).1, result, ⟨fuel, returned⟩, fun fails => ?_, ?_⟩
      · exact ((Context.decode_safe fails countable outside messages fuel).2 result returned).2
      · exact ih (fun other member => contained other (by simp [member])) _
          ((safe fuel).2 result returned).1 (later result ⟨fuel, returned⟩)

/-- A price in full, and the next in a buffer of its own. -/
theorem decode_stays_inside_price :
    StaysInside (Context.new (Templates.ofList [priceTemplate]))
      [(Context.pricePacket, fun _ => 0), ([1, 0, 1, 0, 0, 0, 12], fun _ => 0)] := by
  have idAhead (rest : List UInt8) : VarintAhead 5 ([1] ++ rest) (some (1, rest)) :=
    .ends (.last (by decide)) (by decide)
  have indexAhead (rest : List UInt8) : VarintAhead 10 ([0] ++ rest) (some (0, rest)) :=
    .ends (.last (by decide)) (by decide)
  have fullAhead : IntegerAhead (⟨.copy, true, false, 0⟩ : FieldInstructionInteger Int64) fullMap
      ([5, 0, 0, 0, 0, 0, 0, 0] ++ []) (some []) :=
    .full (by decide) rfl
  have nextAhead : IntegerAhead (⟨.copy, true, false, 0⟩ : FieldInstructionInteger Int64) 1
      ([12] ++ []) (some []) :=
    .copied (by decide) rfl (by decide) (.ends (.last (by decide)) (by decide))
  refine decode_stays_inside ?_ ?_
  · intro call member
    rcases List.mem_cons.mp member with rfl | member
    · have index := indexAhead ([0, 0, 0, 128] ++ ([5, 0, 0, 0, 0, 0, 0, 0] ++ []))
      exact ⟨by decide, _, .message (idAhead _) index rfl (by decide) rfl (by decide)
        (.next fullAhead .done) .done⟩
    · obtain rfl := List.mem_singleton.mp member
      have index := indexAhead ([1, 0, 0, 0] ++ ([12] ++ []))
      exact ⟨by decide, _, .message (idAhead _) index rfl (by decide) rfl (by decide)
        (.next nextAhead .done) .done⟩
  · have typed := wellTyped_priceTemplate
    have found : (Templates.ofList [priceTemplate]).getTemplate 1 =
        some (priceTemplate.setIndex 0) := rfl
    have fits := fun price => fits_priceCall price _ found
    exact (DecoderFollows.fresh (by decide)).allServed (by decide) typed found (fits 5)
      (by decide) (by decide) fun decoder follows =>
        follows.allServed (by decide) typed found (fits 6) (by decide) (by decide)
          fun _ _ => trivial

/-- The first byte of a two-byte template id, alone in its buffer, makes `decode` look behind the
buffer's end. -/
theorem lone_byte_read_past :
    ¬∀ (templates : Templates) (fed : List (List UInt8 × Memory)),
      StaysInside (Context.new templates) fed := by
  intro claimed
  have inside := (claimed Templates.new [([129], fun _ => 0)] []).1 1 (.read 0 2) (by decide)
  exact absurd inside.2 (by decide)

end FlashForwarder
