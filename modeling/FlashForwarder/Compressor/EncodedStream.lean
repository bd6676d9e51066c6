import FlashForwarder.Compressor.Containment

/-!
# What the encoder writes is a stream of messages

The output of any sequence of calls is derived in the grammar of streams, with one message for each
call.  A decoder in any state therefore puts out one message for each call, whatever their values.
-/

namespace FlashForwarder

open WireFormat Varint FieldInstruction

theorem varintAhead_writeVarint32 (value : UInt32) (rest : List UInt8) :
    VarintAhead 5 (writeVarint32 value ++ rest) (some (value.toNat, rest)) :=
  .ends (writeVarint32_isVarint value) (length_writeVarint32 value)

theorem varintAhead_writeVarint64 (value : UInt64) (rest : List UInt8) :
    VarintAhead 10 (writeVarint64 value ++ rest) (some (value.toNat, rest)) :=
  .ends (writeVarint64_isVarint value) (length_writeVarint64 value)

/-! ## Fields -/

section

variable {α : Type} [FieldInteger α] [DecidableEq α] [LawfulFieldInteger α]
  {instruction : FieldInstructionInteger α} {pMap : UInt32}

variable (instruction) in
omit [DecidableEq α] [LawfulFieldInteger α] in
/-- A changed value is a number that its reader can take. -/
theorem varintAhead_write (value : α) (rest : List UInt8) :
    ∃ bits, VarintAhead (if instruction.shortBits then 5 else 10)
      (instruction.write value ++ rest) (some (bits, rest)) := by
  unfold FieldInstructionInteger.write
  cases instruction.signed <;> cases instruction.shortBits
  · exact ⟨_, varintAhead_writeVarint64 _ rest⟩
  · exact ⟨_, varintAhead_writeVarint32 _ rest⟩
  · exact ⟨_, varintAhead_writeVarint64 _ rest⟩
  · exact ⟨_, varintAhead_writeVarint32 _ rest⟩

omit [DecidableEq α] [LawfulFieldInteger α] in
theorem integerAhead_full (value : α) (rest : List UInt8) :
    IntegerAhead instruction fullMap
      (FieldInstructionInteger.full α (.integer (FieldInteger.toBits value)) ++ rest)
      (some rest) :=
  .full (by decide) (length_hostBytes _ _)

theorem integerAhead_wire (partial_ : pMap &&& fullMap = 0) (old new : α)
    (present : marked pMap instruction.index =
      instruction.marks (.integer (FieldInteger.toBits old)) (.integer (FieldInteger.toBits new)))
    (rest : List UInt8) :
    IntegerAhead instruction pMap (instruction.wire (.integer (FieldInteger.toBits old))
      (.integer (FieldInteger.toBits new)) ++ rest) (some rest) := by
  rw [FieldInstructionInteger.wire_toBits, FieldInstructionInteger.wireInteger]
  cases kind : instruction.type with
  | copy =>
      by_cases same : new = old
      · subst same
        simpa using IntegerAhead.absent partial_ kind
          (by simpa [FieldInstructionInteger.marks, kind] using present)
      · obtain ⟨bits, ahead⟩ := varintAhead_write instruction new rest
        have here : marked pMap instruction.index = true := by
          rw [present]
          simp [FieldInstructionInteger.marks, FieldInstructionInteger.toBits_inj, same]
        simpa [same] using IntegerAhead.copied partial_ kind here ahead
  | delta => exact .delta partial_ kind (varintAhead_writeVarint64 _ rest)

end

theorem stringAhead_stringBytes {instruction : FieldInstructionString} {pMap : UInt32}
    (sent : instruction.sent pMap) (value rest : List UInt8) :
    StringAhead instruction pMap (stringBytes value ++ rest) (some rest) := by
  have cut : (UInt32.ofNat value.length).toNat ≤ value.length := by
    rw [UInt32.toNat_ofNat']
    exact Nat.mod_le _ _
  rw [stringBytes, List.append_assoc]
  refine .body sent (varintAhead_writeVarint32 _ _) ?_
  rw [List.length_take, Nat.min_eq_left cut, Nat.mod_eq_of_lt (UInt32.toNat_lt _)]

theorem stringAhead_wire {instruction : FieldInstructionString} {pMap : UInt32}
    (partial_ : pMap &&& fullMap = 0) (copy : instruction.type = .copy) (old new : List UInt8)
    (present : marked pMap instruction.index = decide (FieldValue.text new ≠ .text old))
    (rest : List UInt8) :
    StringAhead instruction pMap
      (FieldInstructionString.wire (.text old) (.text new) ++ rest) (some rest) := by
  have notFull : pMap ≠ fullMap := by
    rintro rfl
    exact absurd partial_ (by decide)
  by_cases same : new = old
  · subst same
    simpa [FieldInstructionString.wire] using
      StringAhead.absent notFull copy (by simpa using present)
  · simp only [FieldInstructionString.wire, ne_eq, same, not_false_eq_true, if_true]
    exact stringAhead_stringBytes (Or.inr ⟨copy, by simpa [same] using present⟩) new rest

theorem FieldInstruction.ahead_full {instruction : FieldInstruction} {new : FieldValue}
    (admitted : instruction.Admits new) (rest : List UInt8) :
    instruction.Ahead fullMap (instruction.full new ++ rest) (some rest) := by
  cases instruction with
  | int64 instruction =>
      obtain ⟨value, rfl⟩ := exists_toBits (α := Int64) admitted
      exact integerAhead_full value rest
  | uint64 instruction =>
      obtain ⟨value, rfl⟩ := exists_toBits (α := UInt64) admitted
      exact integerAhead_full value rest
  | uint32 instruction =>
      obtain ⟨value, rfl⟩ := exists_toBits (α := UInt32) admitted
      exact integerAhead_full value rest
  | string instruction =>
      obtain ⟨value, rfl⟩ := exists_text admitted
      exact stringAhead_stringBytes (Or.inl rfl) value rest

/-- A field encoded against a snapshot is one field of the grammar. -/
theorem FieldInstruction.ahead_wire {instruction : FieldInstruction} (sound : instruction.Sound)
    {old new : FieldValue} (oldAdmitted : instruction.Admits old)
    (newAdmitted : instruction.Admits new) {pMap : UInt32} (partial_ : pMap &&& fullMap = 0)
    (present : marked pMap instruction.index = instruction.marks old new) (rest : List UInt8) :
    instruction.Ahead pMap (instruction.wire old new ++ rest) (some rest) := by
  cases instruction with
  | int64 instruction =>
      obtain ⟨before, rfl⟩ := exists_toBits (α := Int64) oldAdmitted
      obtain ⟨after, rfl⟩ := exists_toBits (α := Int64) newAdmitted
      exact integerAhead_wire partial_ before after present rest
  | uint64 instruction =>
      obtain ⟨before, rfl⟩ := exists_toBits (α := UInt64) oldAdmitted
      obtain ⟨after, rfl⟩ := exists_toBits (α := UInt64) newAdmitted
      exact integerAhead_wire partial_ before after present rest
  | uint32 instruction =>
      obtain ⟨before, rfl⟩ := exists_toBits (α := UInt32) oldAdmitted
      obtain ⟨after, rfl⟩ := exists_toBits (α := UInt32) newAdmitted
      exact integerAhead_wire partial_ before after present rest
  | string instruction =>
      obtain ⟨before, rfl⟩ := exists_text oldAdmitted
      obtain ⟨after, rfl⟩ := exists_text newAdmitted
      exact stringAhead_wire partial_ sound before after present rest

/-! ## Messages -/

theorem fieldsAhead_full {instructions : List FieldInstruction} {news : List FieldValue}
    (admitted : AdmitAll instructions news) (rest : List UInt8) :
    FieldsAhead fullMap instructions (fullFields instructions news ++ rest) (some rest) := by
  induction admitted with
  | nil => exact .done
  | cons here _ ih =>
      rw [fullFields, List.append_assoc]
      exact .next (FieldInstruction.ahead_full here _) ih

theorem fieldsAhead_wire {instructions : List FieldInstruction} {olds news : List FieldValue}
    {pMap : UInt32} (sound : ∀ instruction ∈ instructions, instruction.Sound)
    (present : Present pMap instructions olds news) (partial_ : pMap &&& fullMap = 0)
    (oldAdmitted : AdmitAll instructions olds) (newAdmitted : AdmitAll instructions news)
    (rest : List UInt8) :
    FieldsAhead pMap instructions (wireFields instructions olds news ++ rest) (some rest) := by
  induction instructions generalizing olds news with
  | nil =>
      cases oldAdmitted
      cases newAdmitted
      exact .done
  | cons instruction instructions ih =>
      obtain _ | @⟨_, old, _, olds, oldHere, oldRest⟩ := oldAdmitted
      obtain _ | @⟨_, new, _, news, newHere, newRest⟩ := newAdmitted
      rw [wireFields, List.append_assoc]
      exact .next (FieldInstruction.ahead_wire (sound instruction (by simp)) oldHere newHere
        partial_ present.1 _)
        (ih (fun other member => sound other (by simp [member])) present.2 oldRest newRest)

/-- A header, a presence map and fields are one message of the grammar. -/
theorem streamAhead_message {templates : Templates} {tmp : Template}
    (found : templates.getTemplate tmp.id = some tmp) {index : UInt64}
    (bounded : index.toNat < Context.maxSize) {pMap : UInt32} {fields later : List UInt8}
    {count : Option Nat}
    (body : FieldsAhead pMap tmp.instructions (fields ++ later) (some later))
    (small : (fields ++ later).length < 2147483644) (stream : StreamAhead templates later count) :
    StreamAhead templates (tmp.header index ++ (hostUint32 pMap ++ fields) ++ later)
      (count.map (· + 1)) := by
  have isMap : getUint32 (hostUint32 pMap).reverse = pMap := by
    rw [hostUint32, List.reverse_reverse]
    simpa using getUint32_putUint32 pMap []
  have idAhead := varintAhead_writeVarint32 tmp.id
    (writeVarint64 index ++ (hostUint32 pMap ++ (fields ++ later)))
  have indexAhead := varintAhead_writeVarint64 index (hostUint32 pMap ++ (fields ++ later))
  have message := StreamAhead.message idAhead indexAhead (by rw [UInt32.ofNat_toNat, found])
    (by rwa [UInt64.ofNat_toNat]) (length_hostUint32 pMap) small (by rw [isMap]; exact body) stream
  simpa [Template.header, List.append_assoc] using message

/-- The bytes of a call are one message of the grammar. -/
theorem streamAhead_wireBytes {added : List Template} (typed : ∀ tmp ∈ added, tmp.WellTyped)
    {history : List Call} {call : Call} {tmp : Template}
    (found : (Templates.ofList added).getTemplate call.templateID = some tmp)
    (past : ∀ other ∈ history, other.Fits added) (fits : call.message.Fits tmp.instructions)
    (countable : (tokensSeen (history ++ [call]) call.templateID).length ≤ Context.maxSize)
    {later : List UInt8} {count : Option Nat}
    (small : (wireBytes tmp history call ++ later).length < 2147483648)
    (stream : StreamAhead (Templates.ofList added) later count) :
    StreamAhead (Templates.ofList added) (wireBytes tmp history call ++ later)
      (count.map (· + 1)) := by
  have wellTyped := Templates.wellTyped_of_getTemplate typed found
  obtain ⟨_, _, _, _, sameId⟩ := Templates.getTemplate_ofList found
  have known : (Templates.ofList added).getTemplate tmp.id = some tmp := by rw [sameId, found]
  have bounded : ∀ place, place < (tokensSeen (history ++ [call]) call.templateID).length →
      (UInt64.ofNat place).toNat < Context.maxSize := by
    intro place inside
    rw [UInt64.toNat_ofNat']
    exact (Nat.mod_le _ _).trans_lt (inside.trans_le countable)
  rw [tokensSeen_concat, enterToken] at bounded
  cases last : lastMessage history call.templateID call.token with
  | none =>
      have inside := bounded (tokensSeen history call.templateID).length
        (by rw [if_pos ⟨rfl, lastMessage_eq_none_iff.mp last⟩]; simp)
      simp only [wireBytes, last, Template.full, List.length_append, length_hostUint32]
        at small ⊢
      exact streamAhead_message known inside (fieldsAhead_full fits.admitAll later)
        (by rw [List.length_append]; omega) stream
  | some previous =>
      have seen := mem_tokensSeen_of_lastMessage last
      have inside := bounded _
        (by rw [if_neg (by simp [seen])]; exact List.idxOf_lt_length_of_mem seen)
      obtain ⟨earlier, member, sameTemplate, rfl⟩ := exists_call_of_lastMessage last
      have earlierFits := past earlier member tmp (by rw [sameTemplate, found])
      obtain ⟨present, partial_⟩ := wellTyped.present earlier.message.values call.message.values
      simp only [wireBytes, last, Template.wire, List.length_append, length_hostUint32]
        at small ⊢
      exact streamAhead_message known inside (fieldsAhead_wire wellTyped.sound present partial_
        earlierFits.admitAll fits.admitAll later) (by rw [List.length_append]; omega) stream

/-! ## Runs -/

/-- The output of successive calls is a stream with one message for each call. -/
theorem streamAhead_outputs {added : List Template} (typed : ∀ tmp ∈ added, tmp.WellTyped)
    {history calls : List Call} (past : ∀ call ∈ history, call.Fits added)
    (fits : ∀ call ∈ calls, call.Fits added) (countable : FewTokens added (history ++ calls))
    (small : (outputsOf added history calls).flatten.length < 2147483648) :
    StreamAhead (Templates.ofList added) (outputsOf added history calls).flatten
      (some (encodedViews added calls).length) := by
  induction calls generalizing history with
  | nil => exact .done
  | cons call calls ih =>
      have extended : ∀ other ∈ history ++ [call], other.Fits added := by
        intro other member
        rcases List.mem_append.mp member with old | new
        · exact past other old
        · exact fits other (by simp [List.mem_singleton.mp new])
      have countable' : FewTokens added ((history ++ [call]) ++ calls) := by simpa using countable
      have rest := ih extended (fun other member => fits other (by simp [member])) countable'
      cases found : (Templates.ofList added).getTemplate call.templateID with
      | none =>
          simp only [outputsOf, outputOf, found, List.flatten_cons, List.nil_append,
            encodedViews] at small ⊢
          exact rest small
      | some tmp =>
          simp only [outputsOf, outputOf, found, List.flatten_cons, encodedViews,
            List.length_cons] at small ⊢
          exact streamAhead_wireBytes typed found past (fits call (by simp) tmp found)
            (countable'.front _ _ found) small (rest (by rw [List.length_append] at small; omega))

/-- A decoder in any state that returns from the output of successive calls has put out one message
for each. -/
theorem Context.decodes_outputs {added : List Template} (typed : ∀ tmp ∈ added, tmp.WellTyped)
    {history calls : List Call} (past : ∀ call ∈ history, call.Fits added)
    (fits : ∀ call ∈ calls, call.Fits added) (countable : FewTokens added (history ++ calls))
    (small : (outputsOf added history calls).flatten.length < 2147483648) {context : Context}
    (templates : context.templates = Templates.ofList added) {outside : Memory}
    {result : Decoded}
    (decoded : context.Decodes (Memory.ofBuffer (outputsOf added history calls).flatten outside)
      (UInt64.ofNat (outputsOf added history calls).flatten.length) [] result) :
    result.messages.length = (encodedViews added calls).length ∧
      result.context.templates = Templates.ofList added := by
  obtain ⟨fuel, returned⟩ := decoded
  have stream := streamAhead_outputs typed past fits countable small
  rw [← templates] at stream
  obtain ⟨sameTemplates, count⟩ :=
    (decode_safe stream (by omega) outside [] fuel).2 result returned
  exact ⟨by simpa using count, sameTemplates.trans templates⟩

end FlashForwarder
