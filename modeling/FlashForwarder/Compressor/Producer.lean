import FlashForwarder.Compressor.Configuration

/-!
# Filling in the messages of templates

A producer fetches the message of a template, sets fields of it and has it encoded, again and again.
The message is the template's own, so it keeps what was set before.  What the producer does is
followed with the values alone, and these are what the decoder puts out.
-/

namespace FlashForwarder

/-- An argument of `setValue`, of one of its overloads. -/
inductive SetValue where
  | int32 (value : Int32)
  | uint32 (value : UInt32)
  | int64 (value : Int64)
  | uint64 (value : UInt64)
  | string (bytes : List UInt8)

namespace SetValue

/-- The type that the overload tests for. -/
def fieldType : SetValue → FieldType
  | int32 _ => .int32
  | uint32 _ => .uint32
  | int64 _ => .int64
  | uint64 _ => .uint64
  | string _ => .string

/-- The value that is set. -/
def fieldValue : SetValue → FieldValue
  | int32 value => .integer value.toInt64.toUInt64
  | uint32 value => .integer value.toUInt64
  | int64 value => .integer value.toUInt64
  | uint64 value => .integer value
  | string bytes => .text bytes

end SetValue

/-- `setValue` -/
def Field.setValue (field : Field) : SetValue → Field
  | .int32 value =>
      if field.type = .int32 then { field with sintValue := value.toInt64 } else field
  | .uint32 value => field.setInteger value
  | .int64 value => field.setInteger value
  | .uint64 value => field.setInteger value
  | .string bytes => field.setString bytes

@[simp] theorem Field.type_setValue (field : Field) (value : SetValue) :
    (field.setValue value).type = field.type := by
  cases value with
  | int32 value => simp only [setValue]; split <;> rfl
  | uint32 value => exact type_setInteger field value
  | int64 value => exact type_setInteger field value
  | uint64 value => exact type_setInteger field value
  | string bytes => exact type_setString field bytes

theorem Field.value_setValue (field : Field) (value : SetValue) :
    (field.setValue value).value =
      if field.type = value.fieldType then value.fieldValue else field.value := by
  split_ifs with same
  · cases value with
    | int32 value =>
        simp only [SetValue.fieldType] at same
        simp [setValue, same, Field.value, SetValue.fieldValue]
    | uint32 value => exact value_setInteger same value
    | int64 value => exact value_setInteger same value
    | uint64 value => exact value_setInteger same value
    | string bytes => exact value_setString same bytes
  · cases value with
    | int32 value => exact congrArg Field.value (if_neg same)
    | uint32 value => exact congrArg Field.value (if_neg same)
    | int64 value => exact congrArg Field.value (if_neg same)
    | uint64 value => exact congrArg Field.value (if_neg same)
    | string bytes => exact congrArg Field.value (if_neg same)

namespace Message

/-- `setField` -/
def setFieldValue (message : Message) (index : UInt16) (value : SetValue) :
    Option (Message × Bool) :=
  if index ≥ message.fieldCount then some (message, false)
  else (message.modifyField index (·.setValue value)).map (·, true)

end Message

/-- The types and values of a message once a field is set. -/
def fillIn (index : Nat) (value : SetValue) (view : List FieldType × List FieldValue) :
    List FieldType × List FieldValue :=
  if view.1[index]? = some value.fieldType then (view.1, view.2.set index value.fieldValue)
  else view

theorem fillIn_fst (index : Nat) (value : SetValue) (view : List FieldType × List FieldValue) :
    (fillIn index value view).1 = view.1 := by
  rw [fillIn]
  split_ifs <;> rfl

theorem Message.view_setField {message : Message} {index : UInt16}
    (inside : index.toNat < message.fields.length) (value : SetValue) :
    (message.setField index (message.fields[index.toNat].setValue value)).view =
      fillIn index.toNat value message.view := by
  have types : (message.setField index (message.fields[index.toNat].setValue value)).types =
      message.types := by
    rw [Message.types, setField, List.map_set, Field.type_setValue, ← List.getElem_map Field.type,
      List.set_getElem_self]
    · rfl
    · rwa [List.length_map]
  have values : (message.setField index (message.fields[index.toNat].setValue value)).values =
      message.values.set index.toNat (message.fields[index.toNat].setValue value).value := by
    rw [Message.values, setField, List.map_set]
    rfl
  have place : message.types[index.toNat]? = some message.fields[index.toNat].type := by
    rw [Message.types, List.getElem?_map, List.getElem?_eq_getElem inside]
    rfl
  rw [view, types, values, Field.value_setValue, fillIn, view, place]
  by_cases same : message.fields[index.toNat].type = value.fieldType
  · rw [if_pos same, if_pos (congrArg some same)]
  · rw [if_neg same, if_neg fun both => same (Option.some_inj.mp both), Message.values,
      ← List.getElem_map Field.value, List.set_getElem_self]
    rwa [List.length_map]

theorem Message.exists_setFieldValue {message : Message} (counted : message.Counted)
    (index : UInt16) (value : SetValue) :
    ∃ updated success, message.setFieldValue index value = some (updated, success) ∧
      updated.Counted ∧ updated.view = fillIn index.toNat value message.view := by
  rw [setFieldValue]
  split_ifs with outside
  · refine ⟨message, false, rfl, counted, (if_neg ?_).symm⟩
    have beyond : message.types.length ≤ index.toNat := by
      rw [types, List.length_map, ← counted]
      exact UInt16.le_iff_toNat_le.mp outside
    rw [view, List.getElem?_eq_none beyond]
    exact (Option.some_ne_none _).symm
  · have inside : index.toNat < message.fields.length := by
      rw [← counted]
      exact UInt16.lt_iff_toNat_lt.mp (UInt16.not_le.mp outside)
    have found : message.getField index = some message.fields[index.toNat] := by
      rw [getField, if_neg outside, List.getElem?_eq_getElem inside]
    refine ⟨_, true, by rw [modifyField_of_getField found, Option.map_some], ?_,
      view_setField inside value⟩
    rw [Counted, setField, List.length_set]
    exact counted

/-! ## What a producer does -/

/-- A message with an exact count. -/
abbrev Form := {message : Message // message.Counted}

namespace Form

/-- `setField`, on a count that is exact. -/
def fill (index : UInt16) (value : SetValue) (form : Form) : Form :=
  ⟨((form.1.setFieldValue index value).map Prod.fst).getD form.1, by
    obtain ⟨updated, success, done, counted, -⟩ := Message.exists_setFieldValue form.2 index value
    rw [done]
    exact counted⟩

theorem setFieldValue_eq (form : Form) (index : UInt16) (value : SetValue) :
    ∃ success, form.1.setFieldValue index value = some ((form.fill index value).1, success) := by
  obtain ⟨updated, success, done, -⟩ := Message.exists_setFieldValue form.2 index value
  refine ⟨success, done.trans ?_⟩
  simp only [fill, done]
  rfl

theorem view_fill (form : Form) (index : UInt16) (value : SetValue) :
    (form.fill index value).1.view = fillIn index.toNat value form.1.view := by
  obtain ⟨updated, success, done, -, view⟩ := Message.exists_setFieldValue form.2 index value
  simp only [fill, done]
  exact view

end Form

namespace Producer

/-- A call of the producer's. -/
inductive Step where
  /-- `setField`, on what `getTemplateMessage` has returned for a template. -/
  | set (templateId : UInt32) (index : UInt16) (value : SetValue)
  /-- `encode`, of what `getTemplateMessage` has returned for it. -/
  | encode (templateID : UInt32) (token : List UInt8)

section

variable {α β : Type} (fill : UInt16 → SetValue → α → α)

/-- What the templates hold after a step. -/
def after (records : UInt32 → Option α) : Step → UInt32 → Option α
  | .set templateId index value, id =>
      if id = templateId then (records id).map (fill index value) else records id
  | .encode _ _, id => records id

/-- What steps have encoded, each with its template and its token. -/
def sent (records : UInt32 → Option α) : List Step → List (UInt32 × List UInt8 × α)
  | [] => []
  | .set templateId index value :: steps =>
      sent (after fill records (.set templateId index value)) steps
  | .encode templateID token :: steps =>
      ((records templateID).map (templateID, token, ·)).toList ++ sent records steps

/-- What steps have encoded, in batches. -/
def sentBatches (records : UInt32 → Option α) :
    List (List Step) → List (List (UInt32 × List UInt8 × α))
  | [] => []
  | steps :: batches =>
      sent fill records steps :: sentBatches (steps.foldl (after fill) records) batches

variable {fill} {fill' : UInt16 → SetValue → β → β}

/-- What holds of all that the templates hold, and of what is filled in, holds of all that is
sent. -/
theorem mem_after (holds : UInt32 → α → Prop)
    (keeps : ∀ id index value record, holds id record → holds id (fill index value record))
    {records : UInt32 → Option α} (held : ∀ id record, records id = some record → holds id record)
    (step : Step) : ∀ id record, after fill records step id = some record → holds id record := by
  intro id record found
  cases step with
  | set templateId index value =>
      rw [after] at found
      split_ifs at found
      · obtain ⟨before, known, rfl⟩ := Option.map_eq_some_iff.mp found
        exact keeps id index value before (held id before known)
      · exact held id record found
  | encode templateID token => exact held id record found

theorem mem_sent (holds : UInt32 → α → Prop)
    (keeps : ∀ id index value record, holds id record → holds id (fill index value record))
    {records : UInt32 → Option α} (held : ∀ id record, records id = some record → holds id record)
    {steps : List Step} : ∀ item ∈ sent fill records steps, holds item.1 item.2.2 := by
  induction steps generalizing records with
  | nil => exact List.forall_mem_nil _
  | cons step steps induction =>
      cases step with
      | set templateId index value => exact induction (mem_after holds keeps held _)
      | encode templateID token =>
          intro item member
          rcases List.mem_append.mp member with here | later
          · obtain ⟨record, found, rfl⟩ := by
              simpa only [Option.mem_toList, Option.mem_def, Option.map_eq_some_iff] using here
            exact held templateID record found
          · exact induction held item later

theorem sent_append (records : UInt32 → Option α) (front back : List Step) :
    sent fill records (front ++ back) =
      sent fill records front ++ sent fill (front.foldl (after fill) records) back := by
  induction front generalizing records with
  | nil => rfl
  | cons step front induction =>
      cases step with
      | set templateId index value => exact induction _
      | encode templateID token =>
          rw [List.cons_append, sent, sent, induction, List.append_assoc]
          rfl

theorem flatten_sentBatches (records : UInt32 → Option α) (batches : List (List Step)) :
    (sentBatches fill records batches).flatten = sent fill records batches.flatten := by
  induction batches generalizing records with
  | nil => rfl
  | cons steps batches induction =>
      rw [sentBatches, List.flatten_cons, List.flatten_cons, sent_append, induction]

theorem length_sent_le (records : UInt32 → Option α) (steps : List Step) :
    (sent fill records steps).length ≤ steps.length := by
  induction steps generalizing records with
  | nil => exact Nat.le_refl _
  | cons step steps induction =>
      cases step with
      | set templateId index value => exact Nat.le_succ_of_le (induction _)
      | encode templateID token =>
          have rest := induction records
          rw [sent, List.length_append, List.length_cons]
          cases records templateID with
          | none => exact (Nat.zero_add _).le.trans (Nat.le_succ_of_le rest)
          | some record =>
              rw [Option.map_some, Option.toList_some, List.length_singleton]
              omega

theorem after_set_of_none {records : UInt32 → Option α} {templateId : UInt32}
    (none : records templateId = none) (index : UInt16) (value : SetValue) :
    after fill records (.set templateId index value) = records := by
  funext id
  rw [after]
  split_ifs with same
  · rw [same, none, Option.map_none]
  · rfl

/-- What is filled in is filled in where it is looked at. -/
theorem after_map (abstract : α → β) (same : ∀ index value record,
      abstract (fill index value record) = fill' index value (abstract record))
    (records : UInt32 → Option α) (step : Step) :
    after fill' (fun id => (records id).map abstract) step =
      fun id => (after fill records step id).map abstract := by
  funext id
  cases step with
  | set templateId index value =>
      simp only [after]
      split_ifs
      · simp only [Option.map_map, Function.comp_def, same]
      · rfl
  | encode templateID token => rfl

theorem foldl_after_map (abstract : α → β) (same : ∀ index value record,
      abstract (fill index value record) = fill' index value (abstract record))
    (records : UInt32 → Option α) (steps : List Step) :
    steps.foldl (after fill') (fun id => (records id).map abstract) =
      fun id => (steps.foldl (after fill) records id).map abstract := by
  induction steps generalizing records with
  | nil => rfl
  | cons step steps induction =>
      rw [List.foldl_cons, List.foldl_cons, after_map abstract same, induction]

theorem sent_map (abstract : α → β) (same : ∀ index value record,
      abstract (fill index value record) = fill' index value (abstract record))
    (records : UInt32 → Option α) (steps : List Step) :
    sent fill' (fun id => (records id).map abstract) steps =
      (sent fill records steps).map (Prod.map id (Prod.map id abstract)) := by
  induction steps generalizing records with
  | nil => rfl
  | cons step steps induction =>
      cases step with
      | set templateId index value =>
          rw [sent, sent, after_map abstract same, induction]
      | encode templateID token =>
          rw [sent, sent, induction, List.map_append]
          cases records templateID <;> rfl

theorem sentBatches_map (abstract : α → β) (same : ∀ index value record,
      abstract (fill index value record) = fill' index value (abstract record))
    (records : UInt32 → Option α) (batches : List (List Step)) :
    sentBatches fill' (fun id => (records id).map abstract) batches =
      (sentBatches fill records batches).map
        (List.map (Prod.map id (Prod.map id abstract))) := by
  induction batches generalizing records with
  | nil => rfl
  | cons steps batches induction =>
      rw [sentBatches, sentBatches, sent_map abstract same, foldl_after_map abstract same,
        induction, List.map_cons]

end

/-- A call of `encode`, of what is sent. -/
def callOf (sent : UInt32 × List UInt8 × Form) : Call := ⟨sent.2.2.1, sent.1, sent.2.1⟩

end Producer

/-- A write through the pointer to a template's message. -/
def Templates.setMessage (templates : Templates) (templateId : UInt32) (message : Message) :
    Templates where
  templatesMap id :=
    if id = templateId then (templates.templatesMap id).map (·.setMessage message)
    else templates.templatesMap id
  index := templates.index

namespace Context

/-- `getTemplateMessage` -/
def getTemplateMessage (context : Context) (templateId : UInt32) : Option Message :=
  (context.templates.getTemplate templateId).bind Template.inputMessage

/-- A step; a producer that gets a null pointer does nothing. -/
def produce (context : Context) : Producer.Step → Option (Context × List UInt8)
  | .set templateId index value =>
      match context.getTemplateMessage templateId with
      | none => some (context, [])
      | some message => do
          let (message, _) ← message.setFieldValue index value
          return ({ context with templates := context.templates.setMessage templateId message }, [])
  | .encode templateID token =>
      match context.getTemplateMessage templateID with
      | none => some (context, [])
      | some message => context.encode message templateID token []

/-- Successive steps, with the output put together. -/
def produceAll (context : Context) : List Producer.Step → Option (Context × List UInt8)
  | [] => some (context, [])
  | step :: steps => do
      let (context, output) ← context.produce step
      let (context, outputs) ← produceAll context steps
      return (context, output ++ outputs)

/-- Successive batches. -/
def produceBatches (context : Context) :
    List (List Producer.Step) → Option (Context × List (List UInt8))
  | [] => some (context, [])
  | batch :: batches => do
      let (context, output) ← context.produceAll batch
      let (context, outputs) ← produceBatches context batches
      return (context, output :: outputs)

/-- A context and one whose templates hold other messages. -/
structure Carries (base context : Context) (forms : UInt32 → Option Form) : Prop where
  /-- `templateCacheMaps_` -/
  maps_eq : context.templateCacheMaps = base.templateCacheMaps
  /-- `templateCacheArrays_` -/
  arrays_eq : context.templateCacheArrays = base.templateCacheArrays
  /-- The templates differ in their messages. -/
  templates_eq : ∀ id, context.templates.getTemplate id =
    (base.templates.getTemplate id).map fun tmp =>
      { tmp with inputMessage := (forms id).map Subtype.val }
  /-- All messages are those of templates. -/
  known : ∀ id, base.templates.getTemplate id = none → forms id = none

variable {base base' context : Context} {forms : UInt32 → Option Form} {outputs : List (List UInt8)}

theorem Carries.getTemplateMessage_eq (carries : base.Carries context forms) (id : UInt32) :
    context.getTemplateMessage id = (forms id).map Subtype.val := by
  rw [getTemplateMessage, carries.templates_eq]
  cases found : base.templates.getTemplate id with
  | none => rw [carries.known id found]; rfl
  | some tmp => rfl

/-- `encode` does not look at the messages of the templates. -/
theorem Carries.encode_eq (carries : base.Carries context forms) (message : Message) (id : UInt32)
    (token buffer : List UInt8) :
    context.encode message id token buffer =
      (base.encode message id token buffer).map fun result =>
        ({ result.1 with templates := context.templates }, result.2) := by
  obtain ⟨maps_eq, arrays_eq, templates_eq, -⟩ := carries
  obtain ⟨templates, maps, arrays⟩ := context
  obtain rfl : maps = base.templateCacheMaps := maps_eq
  obtain rfl : arrays = base.templateCacheArrays := arrays_eq
  rw [Context.encode, Context.encode, templates_eq]
  cases base.templates.getTemplate id with
  | none => rfl
  | some tmp =>
      simp only [Option.map_some]
      cases base.templateCacheMaps[tmp.index.toNat]? with
      | none => rfl
      | some cacheMap =>
          cases base.templateCacheArrays[tmp.index.toNat]? with
          | none => rfl
          | some cacheArray =>
              simp only [Option.bind_eq_bind, Option.bind_some]
              cases cacheMap.lookup token with
              | some slot =>
                  dsimp only
                  cases cacheArray[slot]?.join with
                  | none => rfl
                  | some cacheMessage =>
                      simp only [Option.bind_some]
                      change (Template.encode tmp message cacheMessage buffer).bind _ =
                        Option.map _ ((Template.encode tmp message cacheMessage buffer).bind _)
                      cases Template.encode tmp message cacheMessage buffer <;> rfl
              | none =>
                  dsimp only
                  change (Template.encodeFull tmp _ buffer).bind _ =
                    Option.map _ ((Template.encodeFull tmp _ buffer).bind _)
                  cases Template.encodeFull tmp _ buffer <;> rfl

theorem templates_encode {message : Message} {id : UInt32} {token buffer output : List UInt8}
    (encoded : base.encode message id token buffer = some (base', output)) :
    base'.templates = base.templates := by
  rw [Context.encode] at encoded
  cases found : base.templates.getTemplate id with
  | none =>
      rw [found] at encoded
      cases encoded
      rfl
  | some tmp =>
      simp only [found, Option.bind_eq_bind, Option.bind_eq_some_iff] at encoded
      obtain ⟨cacheMap, -, cacheArray, -, encoded⟩ := encoded
      cases slot : cacheMap.lookup token with
      | none =>
          simp only [slot, Option.bind_eq_some_iff] at encoded
          obtain ⟨written, -, done⟩ := encoded
          cases done
          rfl
      | some place =>
          simp only [slot, Option.bind_eq_some_iff] at encoded
          obtain ⟨cacheMessage, -, ⟨updated, written⟩, -, done⟩ := encoded
          cases done
          rfl

theorem rel_bind {α β α' β' : Type*} {related : α → β → Prop} {related' : α' → β' → Prop}
    {first : Option α} {second : Option β} {next : α → Option α'} {next' : β → Option β'}
    (here : Option.Rel related first second)
    (rest : ∀ value value', related value value' →
      Option.Rel related' (next value) (next' value')) :
    Option.Rel related' (first.bind next) (second.bind next') := by
  cases here with
  | none => exact .none
  | some same => exact rest _ _ same

theorem Carries.encode (carries : base.Carries context forms) (message : Message) (id : UInt32)
    (token : List UInt8) :
    Option.Rel (fun written produced => produced.2 = written.2 ∧
      written.1.Carries produced.1 forms)
      (base.encode message id token []) (context.encode message id token []) := by
  rw [carries.encode_eq]
  cases encoded : base.encode message id token [] with
  | none => exact .none
  | some written =>
      have templates := templates_encode encoded
      refine .some ⟨rfl, rfl, rfl, ?_, ?_⟩
      · rw [templates]
        exact carries.templates_eq
      · rw [templates]
        exact carries.known

theorem Carries.set (carries : base.Carries context forms) (templateId : UInt32) (index : UInt16)
    (value : SetValue) :
    ∃ context', context.produce (.set templateId index value) = some (context', []) ∧
      base.Carries context' (Producer.after Form.fill forms (.set templateId index value)) := by
  rw [produce, carries.getTemplateMessage_eq]
  cases held : forms templateId with
  | none => exact ⟨context, rfl, by rwa [Producer.after_set_of_none held]⟩
  | some form =>
      obtain ⟨success, done⟩ := form.setFieldValue_eq index value
      refine ⟨{ context with
        templates := context.templates.setMessage templateId (form.fill index value).1 },
        ?_, carries.maps_eq, carries.arrays_eq, ?_, ?_⟩
      · simp only [Option.map_some, done]
        rfl
      · intro id
        have before := carries.templates_eq id
        rw [Templates.getTemplate] at before ⊢
        simp only [Templates.setMessage, Producer.after]
        split_ifs with same
        · rw [before, Option.map_map, same, held]
          rfl
        · exact before
      · intro id missing
        have absent := carries.known id missing
        rw [Producer.after]
        split_ifs
        · rw [absent, Option.map_none]
        · exact absent

theorem produceAll_of_silent {next : Context} {step : Producer.Step} {steps : List Producer.Step}
    (silent : context.produce step = some (next, [])) :
    context.produceAll (step :: steps) = next.produceAll steps := by
  rw [Context.produceAll, silent]
  cases rest : next.produceAll steps <;> simp [rest]

/-- A producer's output is that of the calls that it makes. -/
theorem Carries.produceAll (carries : base.Carries context forms) (steps : List Producer.Step) :
    Option.Rel (fun written produced => produced.2 = written.2.flatten ∧
      written.1.Carries produced.1 (steps.foldl (Producer.after Form.fill) forms))
      (encodeAll base ((Producer.sent Form.fill forms steps).map Producer.callOf))
      (context.produceAll steps) := by
  induction steps generalizing base context forms with
  | nil => exact .some ⟨rfl, carries⟩
  | cons step steps induction =>
      cases step with
      | set templateId index value =>
          obtain ⟨next, silent, kept⟩ := carries.set templateId index value
          rw [produceAll_of_silent silent]
          exact induction kept
      | encode templateID token =>
          rw [Producer.sent]
          cases held : forms templateID with
          | none =>
              rw [produceAll_of_silent
                (by rw [produce, carries.getTemplateMessage_eq, held]; rfl)]
              exact induction carries
          | some form =>
              rw [Context.produceAll, produce, carries.getTemplateMessage_eq, held]
              refine rel_bind (carries.encode form.1 templateID token) ?_
              rintro written produced ⟨same, kept⟩
              refine rel_bind (induction kept) ?_
              rintro later others ⟨rest, final⟩
              exact .some ⟨by simp [same, rest], final⟩

theorem Carries.produceBatches (carries : base.Carries context forms)
    (batches : List (List Producer.Step)) :
    Option.Rel (fun written produced => produced.2 = written.2)
      (encodeBatches base
        ((Producer.sentBatches Form.fill forms batches).map (List.map Producer.callOf)))
      (context.produceBatches batches) := by
  induction batches generalizing base context forms with
  | nil => exact .some rfl
  | cons steps batches induction =>
      refine rel_bind (carries.produceAll steps) ?_
      rintro written produced ⟨same, kept⟩
      refine rel_bind (induction kept) ?_
      intro later others rest
      exact .some (by simp [same, rest])

end Context

namespace XmlTemplateParser

/-! ## Documents -/

/-- What the template of an element is made to hold. -/
def formOf (document : List XmlElement) (id : UInt32) :
    Option (List FieldType × List FieldValue) :=
  (lastReached (templateElements document) id).map fun it =>
    (fieldTypes (reachedFields it.children),
      (fieldTypes (reachedFields it.children)).map fun type => (Field.new type).value)

/-- What the decoder should put out for the steps of a producer. -/
def producedViews (document : List XmlElement) (batches : List (List Producer.Step)) :
    List (List (List FieldType × List FieldValue)) :=
  (Producer.sentBatches (fun index => fillIn index.toNat) (formOf document) batches).map
    (List.map fun sent => sent.2.2)

/-- The message that a template holds has the fields of the last element for its id. -/
theorem exists_form {document : List XmlElement} (configures : Configures document) (id : UInt32) :
    ∃ form : Option Form,
      (∀ tmp, (Templates.ofList (templatesOf document)).getTemplate id = some tmp →
        tmp.inputMessage = form.map Subtype.val) ∧
      ((Templates.ofList (templatesOf document)).getTemplate id = none → form = none) ∧
      formOf document id = form.map fun form => form.1.view := by
  have holds := getTemplate_lastReached (templateElements document) id
  rw [formOf]
  rw [← templatesOf] at holds
  cases last : lastReached (templateElements document) id with
  | none =>
      rw [last] at holds
      refine ⟨none, fun tmp found => ?_, fun _ => rfl, rfl⟩
      rw [found] at holds
      cases holds
  | some it =>
      rw [last] at holds
      cases found : (Templates.ofList (templatesOf document)).getTemplate id with
      | none =>
          rw [found] at holds
          cases holds
      | some tmp =>
          rw [found, Option.rel_some_some] at holds
          obtain ⟨-, member, slot, rfl⟩ := holds
          have acts := configures.acts it member
          obtain ⟨-, -, -, message, held, counted, -⟩ :=
            (wellTyped_templateOf acts).mpr (configures.sendable it member)
          have fields :
              message.fields = (fieldTypes (reachedFields it.children)).map Field.new := by
            rw [← map_fst_entriesOf acts, List.map_map, ← Option.some_inj.mp held]
            exact fields_built
          refine ⟨some ⟨message, counted⟩, ?_, fun missing => ?_, ?_⟩
          · intro tmp same
            cases same
            exact held
          · cases missing
          · have types : message.types = fieldTypes (reachedFields it.children) := by
              rw [Message.types, fields, List.map_map]
              exact List.map_id _
            rw [Option.map_some, Option.map_some, Message.view, types, Message.values, fields,
              List.map_map]
            rfl

/-- The messages that the templates of a document hold. -/
theorem exists_forms {document : List XmlElement} (configures : Configures document) :
    ∃ forms : UInt32 → Option Form,
      (Context.new (Templates.ofList (templatesOf document))).Carries
        (Context.new (Templates.ofList (templatesOf document))) forms ∧
      formOf document = fun id => (forms id).map fun form => form.1.view := by
  choose forms held known views using exists_form configures
  refine ⟨forms, ⟨rfl, rfl, ?_, known⟩, funext views⟩
  intro id
  change (Templates.ofList (templatesOf document)).getTemplate id =
    ((Templates.ofList (templatesOf document)).getTemplate id).map _
  cases found : (Templates.ofList (templatesOf document)).getTemplate id with
  | none => rfl
  | some tmp =>
      rw [Option.map_some, ← held id tmp found]

/-- Each session is produced with a context of its own over the same templates. -/
def ProducesSessions (templates : Templates) (sessions : List (List (List Producer.Step)))
    (buffers : List (List (List UInt8))) : Prop :=
  List.Forall₂ (fun session outputs => ∃ producer,
    (Context.new templates).produceBatches session = some (producer, outputs)) sessions buffers

/-- The calls of a producer, in batches. -/
def callsIn (forms : UInt32 → Option Form) (session : List (List Producer.Step)) :
    List (List Call) :=
  (Producer.sentBatches Form.fill forms session).map (List.map Producer.callOf)

/-- A producer's sessions are those of its calls. -/
theorem producesSessions_iff {templates : Templates} {forms : UInt32 → Option Form}
    (carries : (Context.new templates).Carries (Context.new templates) forms)
    (sessions : List (List (List Producer.Step))) (buffers : List (List (List UInt8))) :
    ProducesSessions templates sessions buffers ↔
      EncodesSessions templates (sessions.map (callsIn forms)) buffers := by
  rw [ProducesSessions, EncodesSessions, List.forall₂_map_left_iff]
  suffices same : ∀ session outputs,
      (∃ producer, (Context.new templates).produceBatches session = some (producer, outputs)) ↔
        ∃ encoder, encodeBatches (Context.new templates) (callsIn forms session) =
          some (encoder, outputs) by
    simp only [same]
  intro session outputs
  have related := carries.produceBatches session
  rw [← callsIn] at related
  generalize encodeBatches (Context.new templates) (callsIn forms session) = written at related ⊢
  generalize (Context.new templates).produceBatches session = produced at related ⊢
  cases related with
  | none => simp
  | some same => simp [Prod.ext_iff, same]

theorem flatten_callsIn (forms : UInt32 → Option Form) (session : List (List Producer.Step)) :
    (callsIn forms session).flatten =
      (Producer.sent Form.fill forms session.flatten).map Producer.callOf := by
  rw [callsIn, ← List.map_flatten, Producer.flatten_sentBatches]

theorem encodedViews_of_known {added : List Template} {calls : List Call}
    (known : ∀ call ∈ calls, (Templates.ofList added).getTemplate call.templateID ≠ none) :
    encodedViews added calls = calls.map fun call => call.message.view := by
  induction calls with
  | nil => rfl
  | cons call calls induction =>
      rw [List.forall_mem_cons] at known
      obtain ⟨tmp, found⟩ := Option.ne_none_iff_exists'.mp known.1
      rw [encodedViews, found, List.map_cons, induction known.2]

section

variable {document : List XmlElement} {forms : UInt32 → Option Form}
  {session : List (List Producer.Step)}

/-- What is sent has the fields that the document gives the template. -/
theorem described_callsIn
    (views : formOf document = fun id => (forms id).map fun form => form.1.view) :
    ∀ call ∈ (callsIn forms session).flatten, Described document call := by
  have held : ∀ item ∈ Producer.sent Form.fill forms session.flatten,
      ∀ it, lastReached (templateElements document) item.1 = some it →
        item.2.2.1.view.1 = fieldTypes (reachedFields it.children) := by
    refine Producer.mem_sent (fun id (form : Form) => ∀ it,
      lastReached (templateElements document) id = some it →
        form.1.view.1 = fieldTypes (reachedFields it.children)) ?_ ?_
    · intro id index value form same it last
      rw [form.view_fill, fillIn_fst, same it last]
    · intro id form found it last
      have view := congrFun views id
      simp only [formOf, last, found, Option.map_some, Option.some_inj] at view
      exact (congrArg Prod.fst view).symm
  rw [flatten_callsIn]
  intro call member it last
  obtain ⟨item, sent, rfl⟩ := List.mem_map.mp member
  exact ⟨held item sent it last, item.2.2.2⟩

theorem encodedViews_callsIn
    (carries : (Context.new (Templates.ofList (templatesOf document))).Carries
      (Context.new (Templates.ofList (templatesOf document))) forms)
    (views : formOf document = fun id => (forms id).map fun form => form.1.view) :
    (callsIn forms session).map (encodedViews (templatesOf document)) =
      producedViews document session := by
  have known : ∀ item ∈ Producer.sent Form.fill forms session.flatten,
      (Templates.ofList (templatesOf document)).getTemplate item.1 ≠ none := by
    refine Producer.mem_sent (fun id _ =>
      (Templates.ofList (templatesOf document)).getTemplate id ≠ none) ?_ ?_
    · exact fun _ _ _ _ known => known
    · intro id form found missing
      rw [carries.known id missing] at found
      cases found
  have sent := Producer.sentBatches_map (fun form : Form => form.1.view)
    (fun index value (form : Form) => form.view_fill index value) forms session
  rw [producedViews, views, sent, callsIn, List.map_map, List.map_map]
  refine List.map_congr_left fun batch member => ?_
  have here : ∀ call ∈ batch.map Producer.callOf,
      (Templates.ofList (templatesOf document)).getTemplate call.templateID ≠ none := by
    rw [List.forall_mem_map]
    intro item inside
    rw [← Producer.flatten_sentBatches] at known
    exact known item (List.mem_flatten_of_mem member inside)
  simp only [Function.comp_apply]
  rw [encodedViews_of_known here, List.map_map, List.map_map]
  rfl

end

/-! ## Results -/

/-- A price is set and sent, and another after it. -/
def priceSteps : List Producer.Step :=
  [.set 1 0 (.int64 5), .encode 1 [], .set 1 0 (.int64 6), .encode 1 []]

/-- What is sent for them, whatever the templates hold for other ids. -/
theorem callsIn_priceSteps {forms : UInt32 → Option Form}
    (held : (forms 1).map Subtype.val = some (Message.new.addField (Field.new .int64))) :
    (callsIn forms [priceSteps]).flatten =
      [{ priceCall 5 with token := [] }, { priceCall 6 with token := [] }] := by
  obtain ⟨⟨message, counted⟩, isForm, rfl⟩ := Option.map_eq_some_iff.mp held
  rw [flatten_callsIn]
  simp only [priceSteps, List.flatten_singleton, Producer.sent, Producer.after, isForm, if_true]
  rfl

example : producedViews priceDocument [priceSteps] =
    [[([.int64], [.integer 5]), ([.int64], [.integer 6])]] := by rfl

end XmlTemplateParser

end FlashForwarder
