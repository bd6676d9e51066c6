import FlashForwarder.Compressor.Synchrony

/-!
# Runs of the compressor

Successive messages are encoded by one context and decoded by another, either all from one buffer
or each from a buffer of its own.
-/

namespace FlashForwarder

open WireFormat ProgramLoop FieldInstruction

/-- What the reader of a message sees: the type and the value of each field. -/
def Message.view (message : Message) : List FieldType × List FieldValue :=
  (message.types, message.values)

/-- The message of a call has the fields of its template. -/
def Call.Fits (added : List Template) (call : Call) : Prop :=
  ∀ tmp, (Templates.ofList added).getTemplate call.templateID = some tmp →
    call.message.Fits tmp.instructions

/-- The strings of a call for a known template can be written. -/
def Call.Writable (added : List Template) (call : Call) : Prop :=
  ∀ tmp, (Templates.ofList added).getTemplate call.templateID = some tmp → call.message.Writable

/-! ## Encoding -/

/-- Encode successive messages, each into an empty buffer. -/
def encodeAll (context : Context) : List Call → Option (Context × List (List UInt8))
  | [] => some (context, [])
  | call :: calls => do
      let (context, output) ← context.encode call.message call.templateID call.token []
      let (context, outputs) ← encodeAll context calls
      return (context, output :: outputs)

/-- The bytes of a call, none for an unknown template. -/
def outputOf (added : List Template) (history : List Call) (call : Call) : List UInt8 :=
  match (Templates.ofList added).getTemplate call.templateID with
  | none => []
  | some tmp => wireBytes tmp history call

/-- The bytes of successive calls. -/
def outputsOf (added : List Template) : List Call → List Call → List (List UInt8)
  | _, [] => []
  | history, call :: calls =>
      outputOf added history call :: outputsOf added (history ++ [call]) calls

section

variable {added : List Template} (few : added.length ≤ 255)
  (typed : ∀ tmp ∈ added, tmp.WellTyped)

include few typed

/-- A sequence of calls can be made if the strings can be written, and its output is determined by
the history alone. -/
theorem EncoderFollows.run {calls history : List Call} {encoder : Context}
    (follows : EncoderFollows added history encoder) (fits : ∀ call ∈ calls, call.Fits added) :
    ∃ encoder', DefinedIf (∀ call ∈ calls, call.Writable added) (encodeAll encoder calls)
        (encoder', outputsOf added history calls) ∧
      ((∀ call ∈ calls, call.Writable added) →
        EncoderFollows added (history ++ calls) encoder') := by
  induction calls generalizing history encoder with
  | nil => exact ⟨encoder, .of_some rfl (by simp), fun _ => by simpa using follows⟩
  | cons call calls ih =>
      have step : ∃ next, DefinedIf (call.Writable added)
          (encoder.encode call.message call.templateID call.token [])
          (next, outputOf added history call) ∧
          (call.Writable added → EncoderFollows added (history ++ [call]) next) := by
        cases found : (Templates.ofList added).getTemplate call.templateID with
        | none =>
            obtain ⟨encoded, next⟩ := follows.skip found []
            exact ⟨encoder, .of_some (by simpa [outputOf, found] using encoded)
              (by simp [Call.Writable, found]), fun _ => next⟩
        | some tmp =>
            obtain ⟨next, encoded, following⟩ :=
              follows.step few typed found (fits call (by simp) tmp found) [] (by simp)
            have same : call.message.Writable ↔ call.Writable added := by
              simp [Call.Writable, found]
            exact ⟨next, by simpa [outputOf, found] using encoded.congr same,
              fun writable => following (same.mpr writable)⟩
      obtain ⟨next, encoded, following⟩ := step
      rw [List.forall_mem_cons]
      by_cases here : call.Writable added
      · obtain ⟨last, rest, final⟩ :=
          ih (following here) fun other member => fits other (by simp [member])
        exact ⟨last, encoded.bind (rest.bind_some rfl),
          fun writable => by simpa using final writable.2⟩
      · exact ⟨encoder, ⟨fun writable => absurd writable.1 here,
          fun _ => by rw [encodeAll, encoded.2 here]; rfl⟩, fun writable => absurd writable.1 here⟩

/-- What a sequence of calls has put out, and where it has left the encoder. -/
theorem EncoderFollows.ran {calls history : List Call} {encoder encoder' : Context}
    {outputs : List (List UInt8)} (follows : EncoderFollows added history encoder)
    (fits : ∀ call ∈ calls, call.Fits added)
    (encoded : encodeAll encoder calls = some (encoder', outputs)) :
    outputs = outputsOf added history calls ∧
      EncoderFollows added (history ++ calls) encoder' := by
  obtain ⟨_, defined, final⟩ := follows.run few typed fits
  obtain ⟨writable, same⟩ := defined.elim encoded
  obtain ⟨rfl, rfl⟩ := Prod.mk.inj same
  exact ⟨rfl, final writable⟩

end

/-! ## Decoding -/

/-- What a decoder makes of successive calls. -/
def deliveredAll (added : List Template) :
    List Call → List Call → List (List FieldType × List FieldValue)
  | _, [] => []
  | history, call :: calls =>
      match (Templates.ofList added).getTemplate call.templateID with
      | none => deliveredAll added (history ++ [call]) calls
      | some tmp =>
          (call.message.types, deliveredValues tmp.instructions
            (lastMessage history call.templateID call.token) call.message) ::
            deliveredAll added (history ++ [call]) calls

/-- Decoding is the loop alone: an empty buffer is left at once. -/
theorem Context.decodes_iff {context : Context} {memory : Memory} {size : UInt64}
    {messages : List Message} {result : Context.Decoded} :
    context.Decodes memory size messages result ↔
      Traced.Returns (Context.decodePass memory (size.toNat - 1)) (context.start size messages)
        result := by
  by_cases empty : size = 0
  · subst empty
    have left : Traced.Returns (Context.decodePass memory ((0 : UInt64).toNat - 1))
        (context.start 0 messages) ⟨messages, context⟩ := by
      apply Traced.Returns.of_leave
      simp [Context.decodePass, Context.start, Context.Cursor.stop]
    constructor
    · rintro ⟨fuel, ended⟩
      simp only [Context.decode, if_true, Traced.outcome_pure, Option.some_inj] at ended
      exact ended ▸ left
    · intro returned
      exact ⟨0, by simp [Context.decode, returned.unique left]⟩
  · simp [Context.Decodes, Context.decode, empty, Traced.Returns]

/-- No template has more tokens than a table can have snapshots. -/
def FewTokens (added : List Template) (calls : List Call) : Prop :=
  ∀ id tmp, (Templates.ofList added).getTemplate id = some tmp →
    (tokensSeen calls id).length ≤ Context.maxSize

theorem FewTokens.front {added : List Template} {front back : List Call}
    (few : FewTokens added (front ++ back)) : FewTokens added front :=
  fun id tmp found => (prefix_tokensSeen front back id).length_le.trans (few id tmp found)

theorem fewTokens_of_short {added : List Template} {calls : List Call}
    (short : calls.length ≤ Context.maxSize) : FewTokens added calls :=
  fun id _ _ => (length_tokensSeen calls id).trans short

theorem length_tokensSeen_le_outputs {added : List Template} (history calls : List Call)
    {id : UInt32} {tmp : Template} (found : (Templates.ofList added).getTemplate id = some tmp) :
    (tokensSeen (history ++ calls) id).length ≤
      (tokensSeen history id).length + (outputsOf added history calls).flatten.length := by
  induction calls generalizing history with
  | nil => simp
  | cons call calls ih =>
      have rest := ih (history ++ [call])
      have here : (tokensSeen (history ++ [call]) id).length ≤
          (tokensSeen history id).length + (outputOf added history call).length := by
        by_cases same : call.templateID = id
        · have grown := length_tokensSeen_concat history call id
          have nonempty := List.length_pos_of_ne_nil (wireBytes_ne_nil tmp history call)
          simp only [outputOf, same, found]
          omega
        · rw [tokensSeen_concat, enterToken, if_neg fun entered => same entered.1]
          exact Nat.le_add_right _ _
      rw [List.append_assoc, List.singleton_append] at rest
      simp only [outputsOf, List.flatten_cons, List.length_append]
      omega

theorem fewTokens_of_small {added : List Template} {calls : List Call}
    (small : (outputsOf added [] calls).flatten.length < 2147483648) :
    FewTokens added calls := by
  intro id tmp found
  have fewer := length_tokensSeen_le_outputs [] calls found
  have large : 2147483648 ≤ Context.maxSize := by decide
  simp only [List.nil_append, tokensSeen, List.foldl_nil, List.length_nil] at fewer ⊢
  omega

/-- No call for a known template is for a token of the past. -/
def Apart (added : List Template) (past calls : List Call) : Prop :=
  ∀ call ∈ calls, ∀ tmp, (Templates.ofList added).getTemplate call.templateID = some tmp →
    call.token ∉ tokensSeen past call.templateID

section

variable {added : List Template} (few : added.length ≤ 255)
  (typed : ∀ tmp ∈ added, tmp.WellTyped)

include few typed

/-- One loop over the output of successive calls reads one message for each. -/
theorem LateFollows.run {memory : Memory} (end_ : Int) {past calls history : List Call}
    (cursor : Context.Cursor) (follows : LateFollows added past history cursor.context)
    (apart : Apart added past calls) (fits : ∀ call ∈ calls, call.Fits added)
    (countable : FewTokens added (past ++ (history ++ calls)))
    (held : memory.Holds cursor.begin_ (outputsOf added (past ++ history) calls).flatten)
    (size : cursor.size.toNat = (outputsOf added (past ++ history) calls).flatten.length)
    (last : end_ = cursor.begin_ + (outputsOf added (past ++ history) calls).flatten.length - 1)
    (small : cursor.size.toNat < 2147483648) :
    ∃ result, Traced.Returns (Context.decodePass memory end_) cursor result ∧
      result.messages.map Message.view =
        cursor.messages.map Message.view ++ deliveredAll added (past ++ history) calls ∧
      LateFollows added past (history ++ calls) result.context := by
  induction calls generalizing history cursor with
  | nil =>
      refine ⟨⟨cursor.messages, cursor.context⟩, .of_leave ?_, by simp [deliveredAll],
        by simpa using follows⟩
      have ended : ¬cursor.begin_ ≤ end_ := by
        simp only [outputsOf, List.flatten_nil, List.length_nil] at last
        omega
      simp [Context.decodePass, ended, Context.Cursor.stop]
  | cons call calls ih =>
      have restFits : ∀ call ∈ calls, call.Fits added :=
        fun other member => fits other (by simp [member])
      have restApart : Apart added past calls := fun other member => apart other (by simp [member])
      cases found : (Templates.ofList added).getTemplate call.templateID with
      | none =>
          have silent : (outputsOf added (past ++ history) (call :: calls)).flatten =
              (outputsOf added (past ++ (history ++ [call])) calls).flatten := by
            simp [outputsOf, outputOf, found]
          simp only [silent] at held size last
          obtain ⟨result, returned, views, final⟩ := ih _ (follows.skip found) restApart restFits
            (by simpa using countable) held size last small
          exact ⟨result, returned, by simpa [deliveredAll, found] using views, by simpa using final⟩
      | some tmp =>
          have nonempty := List.length_pos_of_ne_nil (wireBytes_ne_nil tmp (past ++ history) call)
          have output : (outputsOf added (past ++ history) (call :: calls)).flatten =
              wireBytes tmp (past ++ history) call ++
                (outputsOf added (past ++ (history ++ [call])) calls).flatten := by
            simp [outputsOf, outputOf, found]
          simp only [output, List.length_append] at held size last
          obtain ⟨here, behind⟩ := Memory.holds_append.mp held
          have callFits := fits call (by simp) tmp found
          have restCountable : FewTokens added (past ++ (history ++ [call]) ++ calls) := by
            simpa using countable
          obtain ⟨filled, left, decoder, filledFits, filledValues, leftSize, passed, next⟩ :=
            follows.step few typed found callFits (apart call (by simp) tmp found)
              (restCountable.front _ _ found) end_ cursor rfl (by omega) here (by omega) small
          obtain ⟨result, returned, views, final⟩ := ih
            ⟨cursor.begin_ + (wireBytes tmp (past ++ history) call).length, left,
              cursor.messages ++ [filled], decoder⟩ next restApart restFits
            (by simpa using restCountable) behind (by simp only; omega) (by simp only; omega)
            (by simp only; omega)
          refine ⟨result, (Traced.returns_iff_of_again passed).mpr returned, ?_,
            by simpa using final⟩
          have view : filled.view = (call.message.types, deliveredValues tmp.instructions
              (lastMessage (past ++ history) call.templateID call.token) call.message) := by
            rw [Message.view, filledFits.types, callFits.types, filledValues]
          rw [views]
          simp [deliveredAll, found, view]

/-- A buffer with the output of successive calls is decoded to one message for each. -/
theorem LateFollows.decodes (calls : List Call) {past history : List Call} {decoder : Context}
    (follows : LateFollows added past history decoder) (apart : Apart added past calls)
    (fits : ∀ call ∈ calls, call.Fits added)
    (countable : FewTokens added (past ++ (history ++ calls)))
    (outside : Memory)
    (small : (outputsOf added (past ++ history) calls).flatten.length < 2147483648) :
    ∃ result, decoder.Decodes
        (Memory.ofBuffer (outputsOf added (past ++ history) calls).flatten outside)
        (UInt64.ofNat (outputsOf added (past ++ history) calls).flatten.length) [] result ∧
      result.messages.map Message.view = deliveredAll added (past ++ history) calls ∧
      LateFollows added past (history ++ calls) result.context := by
  have size : (UInt64.ofNat (outputsOf added (past ++ history) calls).flatten.length).toNat =
      (outputsOf added (past ++ history) calls).flatten.length := by
    rw [UInt64.toNat_ofNat', Nat.mod_eq_of_lt (by omega)]
  have held := Memory.holds_ofBuffer (outputsOf added (past ++ history) calls).flatten outside
  obtain ⟨result, returned, views, final⟩ := LateFollows.run few typed
    ((UInt64.ofNat (outputsOf added (past ++ history) calls).flatten.length).toNat - 1)
    (decoder.start (UInt64.ofNat (outputsOf added (past ++ history) calls).flatten.length) [])
    follows apart fits countable held size (by rw [size]; simp [Context.start])
    (by rw [Context.start, size]; exact small)
  exact ⟨result, Context.decodes_iff.mpr returned, by simpa [Context.start] using views, final⟩

theorem DecoderFollows.decodes (calls : List Call) {history : List Call} {decoder : Context}
    (follows : DecoderFollows added history decoder) (fits : ∀ call ∈ calls, call.Fits added)
    (countable : FewTokens added (history ++ calls))
    (outside : Memory) (small : (outputsOf added history calls).flatten.length < 2147483648) :
    ∃ result, decoder.Decodes (Memory.ofBuffer (outputsOf added history calls).flatten outside)
        (UInt64.ofNat (outputsOf added history calls).flatten.length) [] result ∧
      result.messages.map Message.view = deliveredAll added history calls ∧
      DecoderFollows added (history ++ calls) result.context := by
  simp only [DecoderFollows.iff_late] at follows ⊢
  exact follows.decodes few typed calls (by simp [Apart, tokensSeen]) fits
    (by simpa using countable) outside small

end

/-! ## What comes back -/

/-- The instruction sends an integer only when it changed. -/
def FieldInstruction.isCopiedInteger : FieldInstruction → Bool
  | int64 instruction => instruction.type = .copy
  | uint64 instruction => instruction.type = .copy
  | uint32 instruction => instruction.type = .copy
  | string _ => false

/-- What must hold of a message for it to come back: its strings are shorter than 4 GiB, and where
a copied integer is the same as in the token's last message, it is zero. -/
structure Recoverable (tmp : Template) (last : Option Message) (message : Message) : Prop where
  /-- The lengths of the strings fit 32 bits. -/
  short : ∀ bytes, FieldValue.text bytes ∈ message.values → bytes.length < 2 ^ 32
  /-- A copied integer changes or is zero. -/
  changed : ∀ previous, last = some previous → ∀ instruction old new,
    (instruction, old, new) ∈ tmp.instructions.zip (previous.values.zip message.values) →
      instruction.isCopiedInteger → old = new → new = .integer 0

theorem FieldValue.image_eq_iff (value : FieldValue) :
    value.image = value ↔ ∀ bytes, value = .text bytes → bytes.length < 2 ^ 32 := by
  cases value with
  | integer bits => simp [image]
  | text bytes =>
      simp only [image, text.injEq, forall_eq']
      constructor
      · intro same
        have lengths := congrArg List.length same
        rw [List.length_take] at lengths
        omega
      · intro short
        rw [Nat.mod_eq_of_lt short, List.take_length]
  | unread => simp [image]

theorem map_image_eq_iff (values : List FieldValue) :
    values.map FieldValue.image = values ↔
      ∀ bytes, FieldValue.text bytes ∈ values → bytes.length < 2 ^ 32 := by
  have each : values.map FieldValue.image = values ↔ ∀ value ∈ values, value.image = value := by
    conv_lhs => rhs; rw [← List.map_id values]
    exact List.map_inj_left
  rw [each]
  constructor
  · intro same bytes member
    exact (FieldValue.image_eq_iff _).mp (same _ member) bytes rfl
  · intro short value member
    exact (FieldValue.image_eq_iff value).mpr fun bytes here => short bytes (here ▸ member)

/-- An integer comes back if it is sent, or if it is zero anyway. -/
theorem sent_or_zero_iff (delta : Bool) (old new : FieldValue) :
    (if delta || decide (new ≠ old) then new else .integer 0) = new ↔
      (delta = false → old = new → new = .integer 0) := by
  cases delta with
  | true => simp
  | false =>
      by_cases same : new = old
      · subst same
        simp [eq_comm]
      · simp [same, Ne.symm same]

theorem FieldInstruction.delivered_eq_iff {instruction : FieldInstruction} (old : FieldValue)
    {new : FieldValue} (admitted : instruction.Admits new) :
    instruction.delivered (Field.new instruction.fieldType).value old new = new ↔
      (∀ bytes, new = .text bytes → bytes.length < 2 ^ 32) ∧
        (instruction.isCopiedInteger → old = new → new = .integer 0) := by
  have integer : ∀ {α : Type} [FieldInteger α] [LawfulFieldInteger α],
      (∃ field : Field, field.type = FieldInteger.fieldType α ∧ field.value = new) →
        ∀ bytes, new = .text bytes → bytes.length < 2 ^ 32 := by
    intro α _ _ admits bytes text
    obtain ⟨value, isInteger⟩ := exists_toBits (α := α) admits
    simp [isInteger] at text
  have copied : ∀ type : InstructionType, decide (type = .delta) = false ↔
      decide (type = .copy) = true := by rintro ⟨⟩ <;> decide
  cases instruction with
  | string instruction => simp [delivered, isCopiedInteger, FieldValue.image_eq_iff]
  | int64 instruction =>
      rw [and_iff_right (integer (α := Int64) admitted), isCopiedInteger, ← copied]
      exact sent_or_zero_iff (decide (instruction.type = .delta)) old new
  | uint64 instruction =>
      rw [and_iff_right (integer (α := UInt64) admitted), isCopiedInteger, ← copied]
      exact sent_or_zero_iff (decide (instruction.type = .delta)) old new
  | uint32 instruction =>
      rw [and_iff_right (integer (α := UInt32) admitted), isCopiedInteger, ← copied]
      exact sent_or_zero_iff (decide (instruction.type = .delta)) old new

theorem deliveredFields_eq_iff {instructions : List FieldInstruction} {olds news : List FieldValue}
    (sameLength : olds.length = instructions.length) (admitted : AdmitAll instructions news) :
    deliveredFields instructions (defaults instructions) olds news = news ↔
      (∀ bytes, FieldValue.text bytes ∈ news → bytes.length < 2 ^ 32) ∧
        ∀ instruction old new, (instruction, old, new) ∈ instructions.zip (olds.zip news) →
          instruction.isCopiedInteger → old = new → new = .integer 0 := by
  induction admitted generalizing olds with
  | nil => simp [deliveredFields]
  | @cons instruction new instructions news here rest ih =>
      obtain _ | ⟨old, olds⟩ := olds
      · simp at sameLength
      have later := ih (by simpa using sameLength)
      have first := delivered_eq_iff old here
      simp only [defaults, List.map_cons, deliveredFields, List.cons.injEq, List.zip_cons_cons,
        List.mem_cons, Prod.mk.injEq, first] at later ⊢
      rw [later]
      constructor
      · rintro ⟨⟨short, changed⟩, shorts, changes⟩
        refine ⟨?_, ?_⟩
        · rintro bytes (text | member)
          · exact short bytes text.symm
          · exact shorts bytes member
        · rintro _ _ _ (⟨rfl, rfl, rfl⟩ | member)
          · exact changed
          · exact changes _ _ _ member
      · rintro ⟨shorts, changes⟩
        refine ⟨⟨fun bytes text => shorts bytes (Or.inl text.symm),
          changes _ _ _ (Or.inl ⟨rfl, rfl, rfl⟩)⟩,
          fun bytes member => shorts bytes (Or.inr member),
          fun _ _ _ member => changes _ _ _ (Or.inr member)⟩

/-- A message is decoded to its own values exactly when it is recoverable. -/
theorem deliveredValues_eq_iff {tmp : Template} (last : Option Message) {message : Message}
    (fits : message.Fits tmp.instructions)
    (lastFits : ∀ previous, last = some previous → previous.Fits tmp.instructions) :
    deliveredValues tmp.instructions last message = message.values ↔
      Recoverable tmp last message := by
  cases last with
  | none =>
      rw [deliveredValues, map_image_eq_iff]
      exact ⟨fun short => ⟨short, by simp⟩, fun recoverable => recoverable.short⟩
  | some previous =>
      have previousFits := lastFits previous rfl
      rw [deliveredValues, deliveredFields_eq_iff previousFits.length_values fits.admitAll]
      constructor
      · rintro ⟨short, changed⟩
        exact ⟨short, by rintro _ ⟨⟩; exact changed⟩
      · rintro ⟨short, changed⟩
        exact ⟨short, changed previous rfl⟩

/-- The last message of a token comes from a call. -/
theorem exists_call_of_lastMessage {history : List Call} {id : UInt32} {token : List UInt8}
    {message : Message} (last : lastMessage history id token = some message) :
    ∃ call ∈ history, call.templateID = id ∧ call.message = message := by
  induction history using List.reverseRecOn with
  | nil => simp [lastMessage] at last
  | append_singleton history call ih =>
      rw [lastMessage_concat] at last
      split at last
      · rename_i same
        exact ⟨call, by simp, same.1, Option.some_inj.mp last⟩
      · obtain ⟨earlier, member, same⟩ := ih last
        exact ⟨earlier, by simp [member], same⟩

/-- The messages of the calls for known templates. -/
def encodedViews (added : List Template) : List Call → List (List FieldType × List FieldValue)
  | [] => []
  | call :: calls =>
      match (Templates.ofList added).getTemplate call.templateID with
      | none => encodedViews added calls
      | some _ => call.message.view :: encodedViews added calls

/-- Every message of a run is recoverable where it stands. -/
def RecoverableRun (added : List Template) (history calls : List Call) : Prop :=
  ∀ front call back, calls = front ++ call :: back →
    ∀ tmp, (Templates.ofList added).getTemplate call.templateID = some tmp →
      Recoverable tmp (lastMessage (history ++ front) call.templateID call.token) call.message

theorem recoverableRun_cons {added : List Template} {history calls : List Call} {call : Call} :
    RecoverableRun added history (call :: calls) ↔
      (∀ tmp, (Templates.ofList added).getTemplate call.templateID = some tmp →
        Recoverable tmp (lastMessage history call.templateID call.token) call.message) ∧
      RecoverableRun added (history ++ [call]) calls := by
  constructor
  · intro run
    refine ⟨fun tmp found => by simpa using run [] call calls rfl tmp found, ?_⟩
    rintro front later back rfl tmp found
    simpa using run (call :: front) later back rfl tmp found
  · rintro ⟨here, rest⟩ front later back split tmp found
    obtain _ | ⟨first, front⟩ := front
    · obtain ⟨rfl, rfl⟩ := List.cons.inj split
      simpa using here tmp found
    · obtain ⟨rfl, rfl⟩ := List.cons.inj split
      simpa using rest front later back rfl tmp found

theorem deliveredAll_eq_iff {added : List Template} (history : List Call) {calls : List Call}
    (past : ∀ call ∈ history, call.Fits added) (fits : ∀ call ∈ calls, call.Fits added) :
    deliveredAll added history calls = encodedViews added calls ↔
      RecoverableRun added history calls := by
  induction calls generalizing history with
  | nil => simp [deliveredAll, encodedViews, RecoverableRun]
  | cons call calls ih =>
      have rest := ih (history ++ [call])
        (by
          intro other member
          rcases List.mem_append.mp member with old | new
          · exact past other old
          · exact fits other (by simp [List.mem_singleton.mp new]))
        (fun other member => fits other (by simp [member]))
      rw [recoverableRun_cons]
      cases found : (Templates.ofList added).getTemplate call.templateID with
      | none => simp [deliveredAll, encodedViews, found, rest]
      | some tmp =>
          have here := deliveredValues_eq_iff
            (lastMessage history call.templateID call.token) (fits call (by simp) tmp found)
            (by
              intro previous last
              obtain ⟨earlier, member, same, rfl⟩ := exists_call_of_lastMessage last
              exact past earlier member tmp (same ▸ found))
          simp [deliveredAll, encodedViews, found, rest, Message.view, here]

/-! ## Round trip -/

/-- A sequence of calls can be made exactly if its strings can be written, and its concatenated
output is decoded to exactly the encoded messages if and only if every message of the sequence is
recoverable. -/
theorem round_trip_iff_recoverable {added : List Template} {calls : List Call}
    (few : added.length ≤ 255) (typed : ∀ tmp ∈ added, tmp.WellTyped)
    (fits : ∀ call ∈ calls, call.Fits added) (outside : Memory) :
    ((encodeAll (Context.new (Templates.ofList added)) calls).isSome ↔
      ∀ call ∈ calls, call.Writable added) ∧
    ∀ encoder outputs,
      encodeAll (Context.new (Templates.ofList added)) calls = some (encoder, outputs) →
      outputs.flatten.length < 2147483648 →
        ((∃ result, (Context.new (Templates.ofList added)).Decodes
            (Memory.ofBuffer outputs.flatten outside) (UInt64.ofNat outputs.flatten.length) []
            result ∧ result.messages.map Message.view = encodedViews added calls) ↔
          RecoverableRun added [] calls) := by
  have follows := EncoderFollows.fresh few
  refine ⟨?_, fun encoder outputs encoded small => ?_⟩
  · obtain ⟨encoder, defined, _⟩ := follows.run few typed fits
    constructor
    · intro made
      obtain ⟨_, encoded⟩ := Option.isSome_iff_exists.mp made
      exact (defined.elim encoded).1
    · intro writable
      rw [defined.1 writable]
      rfl
  · obtain ⟨rfl, _⟩ := follows.ran few typed fits encoded
    obtain ⟨result, decoded, views, _⟩ := (DecoderFollows.fresh few).decodes few typed _ fits
      (fewTokens_of_small small) outside small
    rw [← deliveredAll_eq_iff [] (by simp) fits]
    constructor
    · rintro ⟨other, otherDecoded, otherViews⟩
      have same := (Context.decodes_iff.mp decoded).unique (Context.decodes_iff.mp otherDecoded)
      rw [← views, same, otherViews]
    · intro same
      exact ⟨result, decoded, views.trans same⟩

/-- A template with one copied 64-bit integer. -/
def priceTemplate : Template :=
  ((Template.new 1).setMessage (Message.new.addField (Field.new .int64))).addInstruction
    (.int64 ⟨.copy, true, false, 0⟩)

/-- A price encoded for one instrument. -/
def priceCall (price : Int64) : Call :=
  ⟨Message.new.addField ((Field.new .int64).setInteger price), 1, [65]⟩

theorem wellTyped_priceTemplate : ∀ tmp ∈ [priceTemplate], tmp.WellTyped := by
  intro tmp member
  rw [List.mem_singleton] at member
  subst member
  refine ⟨by decide, ⟨rfl, trivial⟩, ?_, _, rfl, rfl, rfl⟩
  intro instruction member
  obtain rfl : instruction = .int64 ⟨.copy, true, false, 0⟩ := by
    simpa [priceTemplate, Template.addInstruction, Template.setMessage, Template.new,
      FieldInstruction.setIndex] using member
  rfl

theorem fits_priceCall (price : Int64) : (priceCall price).Fits [priceTemplate] := by
  intro tmp found
  obtain rfl : priceTemplate.setIndex 0 = tmp := Option.some_inj.mp found
  exact ⟨rfl, rfl⟩

theorem writable_priceCall (price : Int64) (added : List Template) :
    (priceCall price).Writable added := by
  intro tmp _ field member
  obtain rfl : field = (Field.new .int64).setInteger price := List.mem_singleton.mp member
  exact writable_of_integer Int64 (Field.type_setInteger _ _)

/-- Two different prices come back. -/
theorem round_trip_iff_recoverable_prices :
    ((encodeAll (Context.new (Templates.ofList [priceTemplate]))
        [priceCall 5, priceCall 6]).isSome ↔
      ∀ call ∈ [priceCall 5, priceCall 6], call.Writable [priceTemplate]) ∧
    ∀ encoder outputs,
      encodeAll (Context.new (Templates.ofList [priceTemplate])) [priceCall 5, priceCall 6] =
        some (encoder, outputs) →
      outputs.flatten.length < 2147483648 →
        ((∃ result, (Context.new (Templates.ofList [priceTemplate])).Decodes
            (Memory.ofBuffer outputs.flatten fun _ => 0) (UInt64.ofNat outputs.flatten.length) []
            result ∧ result.messages.map Message.view =
              encodedViews [priceTemplate] [priceCall 5, priceCall 6]) ↔
          RecoverableRun [priceTemplate] [] [priceCall 5, priceCall 6]) :=
  round_trip_iff_recoverable (by decide) wellTyped_priceTemplate
    (by simp [fits_priceCall]) fun _ => 0

/-- The same price twice does not: the second time it is left out and read as zero. -/
theorem unchanged_price_not_decoded :
    ¬∀ (added : List Template) (calls : List Call) (outside : Memory), added.length ≤ 255 →
      (∀ tmp ∈ added, tmp.WellTyped) → (∀ call ∈ calls, call.Fits added) →
      ∀ encoder outputs,
        encodeAll (Context.new (Templates.ofList added)) calls = some (encoder, outputs) →
        outputs.flatten.length < 2147483648 →
          ∃ result, (Context.new (Templates.ofList added)).Decodes
            (Memory.ofBuffer outputs.flatten outside) (UInt64.ofNat outputs.flatten.length) []
            result ∧ result.messages.map Message.view = encodedViews added calls := by
  intro claimed
  have few : [priceTemplate].length ≤ 255 := by decide
  have fits : ∀ call ∈ [priceCall 5, priceCall 5], call.Fits [priceTemplate] := by
    simp [fits_priceCall]
  have small : (outputsOf [priceTemplate] [] [priceCall 5, priceCall 5]).flatten.length <
      2147483648 := by decide
  obtain ⟨encoder, encoded, _⟩ := (EncoderFollows.fresh few).run few wellTyped_priceTemplate fits
  obtain ⟨result, decoded, views⟩ := claimed [priceTemplate] [priceCall 5, priceCall 5]
    (fun _ => 0) few wellTyped_priceTemplate fits encoder _
    (encoded.1 (by simp [writable_priceCall])) small
  obtain ⟨other, otherDecoded, otherViews, _⟩ := (DecoderFollows.fresh few).decodes few
    wellTyped_priceTemplate _ fits (fewTokens_of_small small) (fun _ => 0) small
  have same := (Context.decodes_iff.mp decoded).unique (Context.decodes_iff.mp otherDecoded)
  rw [same, otherViews] at views
  exact absurd views (by decide)

end FlashForwarder
