import FlashForwarder.Compressor.KeptTemplates
import FlashForwarder.Compressor.PresenceMap
import FlashForwarder.Compressor.Restarts

/-!
# One document for both sides

The encoder and the decoder parse the same document, each to a set of its own.  From the document
alone it can be told whether what the one encodes the other decodes.
-/

namespace FlashForwarder

open FieldInstruction

namespace XmlTemplateParser

/-! ## Templates that can be sent -/

/-- The template of an element has at most 31 fields, none of them an `int32`, and its strings are
copied. -/
def Sendable (it : XmlElement) : Prop :=
  (reachedFields it.children).countP XmlElement.supported ≤ 31 ∧
    ∀ element ∈ reachedFields it.children, element.name ≠ "int32" ∧
      (element.name = "string" → element.attributeValue "action" ≠ some "delta")

variable {id : UInt32} {entries : List (FieldType × FieldInstruction)} {element it : XmlElement}

theorem sound_setIndex (instruction : FieldInstruction) (index : UInt16) :
    (instruction.setIndex index).Sound ↔ instruction.Sound := by
  cases instruction <;> rfl

theorem sound_fieldClass {name : String} {type : FieldType}
    {create : InstructionType → FieldInstruction} (known : fieldClass name = some (type, create))
    (action : InstructionType) :
    (type = (create action).fieldType ∧ (create action).Sound) ↔
      name ≠ "int32" ∧ (name = "string" → action = .copy) := by
  unfold fieldClass at known
  split_ifs at known with int64 uint64 int32 uint32 string <;>
    · cases known
      simp [*, fieldType, FieldInstruction.Sound, FieldInstructionInteger.Sound, FieldInteger.size]

/-- What an element adds is sound just if it is not an `int32` and, if a string, is copied. -/
theorem sound_entries (acts : element.Acts) :
    (∀ entry ∈ element.entries, entry.1 = entry.2.fieldType ∧ entry.2.Sound) ↔
      element.name ≠ "int32" ∧
        (element.name = "string" → element.attributeValue "action" ≠ some "delta") := by
  obtain ⟨insType, action, known⟩ := acts
  rw [← isSome_fieldClass] at known
  rw [XmlElement.entries, action, Option.bind_some]
  cases class_ : fieldClass element.name with
  | none =>
      have other : element.name ≠ "int32" ∧ element.name ≠ "string" := by
        constructor <;>
          · intro same
            rw [same] at class_
            exact absurd class_ (by decide)
      simp [other]
  | some both =>
      rw [class_] at known
      have listed := known rfl
      obtain ⟨type, taken⟩ := Option.isSome_iff_exists.mp (isSome_actionType.mpr listed)
      have copied : type = .copy ↔ insType ≠ "delta" := by
        unfold actionType at taken
        split_ifs at taken with delta copy <;>
          · cases taken
            simp [*]
      rw [taken]
      simpa [copied] using sound_fieldClass class_ type

/-- A template is well typed just if it has at most 31 fields, each with a sound instruction of its
own type. -/
theorem wellTyped_finished : (finished id entries).WellTyped ↔
    entries.length ≤ 31 ∧ ∀ entry ∈ entries, entry.1 = entry.2.fieldType ∧ entry.2.Sound := by
  have instructions : (finished id entries).instructions =
      entries.mapIdx fun place entry => entry.2.setIndex (UInt16.ofNat place) := instructions_built
  have member_iff : ∀ instruction, instruction ∈ (finished id entries).instructions ↔
      ∃ (place : Nat) (entry : FieldType × FieldInstruction), entries[place]? = some entry ∧
        entry.2.setIndex (UInt16.ofNat place) = instruction := by
    intro instruction
    rw [instructions, List.mem_iff_getElem?]
    simp [List.getElem?_mapIdx]
  have types : (finished id entries).instructions.map (fun instruction =>
      Field.new instruction.fieldType) = entries.map fun entry => Field.new entry.2.fieldType := by
    apply List.ext_getElem?
    intro place
    simp [instructions, Function.comp_def]
  constructor
  · rintro ⟨few, -, sound, message, held, -, fields⟩
    obtain rfl : (built id entries).message = message := Option.some_inj.mp held
    rw [instructions, List.length_mapIdx] at few
    rw [types, fields_built, List.map_inj_left] at fields
    refine ⟨few, fun entry member => ⟨congrArg Field.type (fields entry member), ?_⟩⟩
    obtain ⟨place, listed⟩ := List.mem_iff_getElem?.mp member
    exact (sound_setIndex _ _).mp (sound _ ((member_iff _).mpr ⟨place, entry, listed, rfl⟩))
  · rintro ⟨few, sound⟩
    refine ⟨by rw [instructions, List.length_mapIdx]; exact few, ?_, ?_,
      (built id entries).message, rfl, ?_, ?_⟩
    · refine Template.indexedFrom_of_bound (by rw [instructions, List.length_mapIdx]; omega) ?_
      intro place instruction found
      rw [instructions, List.getElem?_mapIdx, Option.map_eq_some_iff] at found
      obtain ⟨entry, -, rfl⟩ := found
      rw [index_setIndex, Nat.zero_add]
    · intro instruction member
      obtain ⟨place, entry, listed, rfl⟩ := (member_iff _).mp member
      exact (sound_setIndex _ _).mpr (sound entry (List.mem_of_getElem? listed)).2
    · rw [Message.Counted, fieldCount_built, fields_built, List.length_map, UInt16.toNat_ofNat',
        Nat.mod_eq_of_lt (by omega)]
    · rw [types, fields_built, List.map_inj_left]
      exact fun entry member => congrArg Field.new (sound entry member).1

theorem wellTyped_templateOf (acts : ∀ element ∈ reachedFields it.children, element.Acts) :
    (templateOf it).WellTyped ↔ Sendable it := by
  rw [templateOf, wellTyped_finished, length_entriesOf acts, Sendable, entriesOf]
  simp only [List.mem_flatMap]
  refine and_congr_right fun _ => ⟨fun sound element member => ?_, ?_⟩
  · exact (sound_entries (acts element member)).mp fun entry inside =>
      sound entry ⟨element, member, inside⟩
  · rintro sound entry ⟨element, member, inside⟩
    exact (sound_entries (acts element member)).mpr (sound element member) entry inside

/-! ## Documents -/

/-- The templates that a document is parsed to. -/
def templatesOf (document : List XmlElement) : List Template :=
  (reached (templateElements document)).map templateOf

/-- A document that configures an encoder and a decoder: it is parsed to at most 255 templates, each
of which can be sent. -/
structure Configures (document : List XmlElement) : Prop where
  acts : AllAct (templateElements document)
  accepted : ¬Refused (templateElements document)
  few : (reached (templateElements document)).length ≤ 255
  sendable : ∀ it ∈ reached (templateElements document), Sendable it

/-- The message of a call has the fields that the document gives its template. -/
def Described (document : List XmlElement) (call : Call) : Prop :=
  ∀ it, lastReached (templateElements document) call.templateID = some it →
    call.message.types = fieldTypes (reachedFields it.children) ∧ call.message.Counted

/-- Both sides parse the document to the same templates, and these are well typed just if the
document configures. -/
theorem configures_iff (document : List XmlElement) : Configures document ↔
    parse (some document) = some (some (Templates.ofList (templatesOf document))) ∧
      (templatesOf document).length ≤ 255 ∧ ∀ tmp ∈ templatesOf document, tmp.WellTyped := by
  have each : AllAct (templateElements document) →
      ((∀ tmp ∈ templatesOf document, tmp.WellTyped) ↔
        ∀ it ∈ reached (templateElements document), Sendable it) := by
    intro acts
    rw [templatesOf, List.forall_mem_map]
    exact forall₂_congr fun it member => wellTyped_templateOf (acts it member)
  have count : (templatesOf document).length = (reached (templateElements document)).length :=
    List.length_map ..
  rw [count]
  constructor
  · rintro ⟨acts, accepted, few, sendable⟩
    exact ⟨parseTemplates_accepted acts accepted, few, (each acts).mpr sendable⟩
  · rintro ⟨parsed, few, typed⟩
    have acts := allAct_of_parseTemplates parsed
    refine ⟨acts, fun refused => ?_, few, (each acts).mp typed⟩
    have nothing : parse (some document) = some none := parseTemplates_refused acts refused
    rw [parsed] at nothing
    cases nothing

/-- What the document describes fits the templates. -/
theorem Configures.fits {document : List XmlElement} (configures : Configures document)
    {call : Call} (described : Described document call) :
    call.Fits (templatesOf document) := by
  intro tmp found
  have holds := getTemplate_lastReached (templateElements document) call.templateID
  rw [show (Templates.ofList ((reached (templateElements document)).map templateOf)).getTemplate
    call.templateID = some tmp from found] at holds
  cases last : lastReached (templateElements document) call.templateID with
  | none =>
      rw [last] at holds
      cases holds
  | some it =>
      rw [last, Option.rel_some_some] at holds
      obtain ⟨-, member, slot, rfl⟩ := holds
      obtain ⟨types, counted⟩ := described it last
      refine ⟨?_, counted⟩
      have instructions : ((templateOf it).setIndex slot).instructions =
          (entriesOf it.children).mapIdx fun place entry =>
            entry.2.setIndex (UInt16.ofNat place) := instructions_built
      have sound := (wellTyped_finished.mp ((wellTyped_templateOf (configures.acts it member)).mpr
        (configures.sendable it member))).2
      rw [types, ← map_fst_entriesOf (configures.acts it member), instructions]
      apply List.ext_getElem?
      intro place
      simp only [List.getElem?_map, List.getElem?_mapIdx, Option.map_map]
      cases listed : (entriesOf it.children)[place]? with
      | none => rfl
      | some entry =>
          simpa using (sound entry (List.mem_of_getElem? listed)).1

/-! ## Results -/

/-- An encoder and a decoder that parse the same document, at most 255 templates of at most 31
fields without `int32`s and differences of strings, understand each other: whatever messages of the
document's fields are encoded, in however many sessions and batches, they come back as they were
just if each session is recoverable. -/
theorem document_carries {document : List XmlElement} (configures : Configures document)
    (sessions : List (List (List Call)))
    (described : ∀ session ∈ sessions, ∀ call ∈ session.flatten, Described document call)
    (countable : ∀ session ∈ sessions, FewTokens (templatesOf document) session.flatten) :
    ∃ templates, parse (some document) = some (some templates) ∧
      ((∃ buffers, EncodesSessions templates sessions buffers) ↔
        ∀ session ∈ sessions, ∀ call ∈ session.flatten, call.Writable (templatesOf document)) ∧
      ∀ buffers, EncodesSessions templates sessions buffers →
        ∀ feds : List (List (List UInt8 × Memory)), feds.map (List.map Prod.fst) = buffers →
          (∀ fed ∈ feds, ∀ buffer ∈ fed, buffer.1.length < 2147483648) →
          ∃ puts, PutsOut (Context.new templates) feds.flatten puts ∧
            (puts.map (List.map Message.view) =
                sessions.flatMap (List.map (encodedViews (templatesOf document))) ↔
              ∀ session ∈ sessions, RecoverableRun (templatesOf document) [] session.flatten) := by
  obtain ⟨parsed, few, typed⟩ := (configures_iff document).mp configures
  have fits : ∀ session ∈ sessions, ∀ call ∈ session.flatten, call.Fits (templatesOf document) :=
    fun session member call inside => configures.fits (described session member call inside)
  refine ⟨_, parsed, by simp [encodesSessions_iff few typed fits], fun buffers encoded feds same
    small => ?_⟩
  rw [((encodesSessions_iff few typed fits).mp encoded).2] at same
  obtain ⟨puts, -, putsOut, -, -, views⟩ :=
    (Context.Whole.fresh few).putsOut few typed fits countable same small
  exact ⟨puts, putsOut, by rw [views, flatMap_deliveredBatches_eq_iff fits]⟩

/-- `<templates><template id="1"><int64 action="copy"/></template></templates>` -/
def priceDocument : List XmlElement :=
  [⟨"templates", [], [⟨"template", [("id", "1")], [⟨"int64", [("action", "copy")], []⟩]⟩]⟩]

theorem configures_priceDocument : Configures priceDocument := by
  rw [configures_iff]
  refine ⟨rfl, by decide, fun tmp member => ?_⟩
  obtain rfl : tmp = priceTemplate := List.mem_singleton.mp member
  exact wellTyped_priceTemplate _ (List.mem_cons_self ..)

theorem document_carries_prices : ∃ templates fed puts,
    parse (some priceDocument) = some (some templates) ∧
      PutsOut (Context.new templates) fed puts ∧ puts.map (List.map Message.view) =
        [[(priceCall 5).message.view, (priceCall 6).message.view]] := by
  have described : ∀ price, Described priceDocument (priceCall price) := by
    rintro price it last
    obtain rfl : ⟨"template", [("id", "1")], [⟨"int64", [("action", "copy")], []⟩]⟩ = it :=
      Option.some_inj.mp last
    exact ⟨rfl, rfl⟩
  obtain ⟨templates, parsed, encodable, decoded⟩ := document_carries configures_priceDocument
    [[[priceCall 5, priceCall 6]]] (by simp [described])
    (List.forall_mem_singleton.mpr (fewTokens_of_short (by decide)))
  obtain rfl : Templates.ofList [priceTemplate] = templates :=
    Option.some_inj.mp (Option.some_inj.mp
      (((configures_iff _).mp configures_priceDocument).1.symm.trans parsed))
  obtain ⟨buffers, encoded⟩ := encodable.mpr
    (by simp [show templatesOf priceDocument = [priceTemplate] from rfl, writable_priceCall])
  have decodes := decoded buffers encoded
  obtain _ | ⟨⟨_, first⟩, _ | _⟩ := encoded
  have known : (encodeBatches (Context.new (Templates.ofList [priceTemplate]))
      [[priceCall 5, priceCall 6]]).map Prod.snd =
        some [[1, 0, 0, 0, 0, 128, 5, 0, 0, 0, 0, 0, 0, 0, 1, 0, 1, 0, 0, 0, 12]] := by
    decide
  rw [first] at known
  obtain rfl := Option.some_inj.mp known
  obtain ⟨puts, putsOut, views⟩ := decodes [[(_, fun _ => 0)]] rfl (by simp)
  exact ⟨_, _, puts, parsed, putsOut, views.mpr
    (by simp [show templatesOf priceDocument = [priceTemplate] from rfl, recoverableRun_prices])⟩

end XmlTemplateParser

end FlashForwarder
