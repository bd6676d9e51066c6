import FlashForwarder.Compressor.ContextExchange
import FlashForwarder.Compressor.XmlTemplateParser

/-!
# What the template parser builds

The fields and the instructions of a template grow side by side, so instruction `i` is bound to
field `i` as long as 16 bits can say so, and uses the field's own type for every field element but
one.
-/

namespace FlashForwarder

/-- Instruction `i` is bound to field `i` of the template's message, and reads and writes it through
the overloads of its own type. -/
def Template.Paired (template : Template) : Prop :=
  ∃ message, template.inputMessage = some message ∧
    template.instructions.length = message.fields.length ∧
    ∀ (place : Nat) (instruction : FieldInstruction),
      template.instructions[place]? = some instruction →
        instruction.index.toNat = place ∧
        ∃ field, message.getField instruction.index = some field ∧
          field.type = instruction.fieldType

namespace FieldInstruction

@[simp] theorem fieldType_setIndex (instruction : FieldInstruction) (index : UInt16) :
    (instruction.setIndex index).fieldType = instruction.fieldType := by
  cases instruction <;> rfl

@[simp] theorem index_setIndex (instruction : FieldInstruction) (index : UInt16) :
    (instruction.setIndex index).index = index := by
  cases instruction <;> rfl

end FieldInstruction

namespace XmlTemplateParser

/-! ## One template -/

/-- The message and the template after successive fields and instructions. -/
def built (id : UInt32) (entries : List (FieldType × FieldInstruction)) : Parsing :=
  entries.foldl (fun parsing entry => parsing.add entry.1 entry.2) ⟨Template.new id, Message.new⟩

/-- The template, once it holds the message. -/
def finished (id : UInt32) (entries : List (FieldType × FieldInstruction)) : Template :=
  (built id entries).tmp.setMessage (built id entries).message

variable {id : UInt32} {entries : List (FieldType × FieldInstruction)}

theorem built_concat (entry : FieldType × FieldInstruction) :
    built id (entries ++ [entry]) = (built id entries).add entry.1 entry.2 := by
  rw [built, List.foldl_append]
  rfl

theorem instructions_built : (built id entries).tmp.instructions =
    entries.mapIdx fun place entry => entry.2.setIndex (UInt16.ofNat place) := by
  induction entries using List.reverseRecOn with
  | nil => rfl
  | append_singleton entries entry ih =>
      rw [built_concat, Parsing.add, Template.addInstruction, ih, List.mapIdx_concat,
        List.length_mapIdx]

theorem fields_built :
    (built id entries).message.fields = entries.map fun entry => Field.new entry.1 := by
  induction entries using List.reverseRecOn with
  | nil => rfl
  | append_singleton entries entry ih =>
      rw [built_concat, Parsing.add, Message.addField, ih, List.map_append]
      rfl

theorem fieldCount_built :
    (built id entries).message.fieldCount = UInt16.ofNat entries.length := by
  induction entries using List.reverseRecOn with
  | nil => rfl
  | append_singleton entries entry ih =>
      rw [built_concat, Parsing.add, Message.addField, ih, List.length_append,
        List.length_singleton, UInt16.ofNat_add]
      rfl

theorem id_built : (built id entries).tmp.id = id := by
  induction entries using List.reverseRecOn with
  | nil => rfl
  | append_singleton entries entry ih =>
      rw [built_concat, Parsing.add, Template.addInstruction, ih]

theorem instruction_at {place : Nat} {entry : FieldType × FieldInstruction}
    (listed : entries[place]? = some entry) :
    (built id entries).tmp.instructions[place]? =
      some (entry.2.setIndex (UInt16.ofNat place)) := by
  rw [instructions_built, List.getElem?_mapIdx, listed, Option.map_some]

/-- With 65536 fields no field can be reached, and with more an instruction is bound to another
field than its own. -/
theorem length_lt_of_paired {slot : UInt8}
    (paired : ((finished id entries).setIndex slot).Paired) : entries.length < 65536 := by
  obtain ⟨message, held, -, bound⟩ := paired
  obtain rfl : (built id entries).message = message := Option.some_inj.mp held
  by_contra large
  have present : ∀ place < entries.length, ∃ entry, entries[place]? = some entry :=
    fun place inside => ⟨_, List.getElem?_eq_getElem inside⟩
  rcases Nat.lt_or_eq_of_le (Nat.le_of_not_lt large) with more | exact_
  · obtain ⟨entry, listed⟩ := present 65536 more
    obtain ⟨index, -⟩ := bound 65536 _ (instruction_at listed)
    rw [FieldInstruction.index_setIndex] at index
    exact absurd index (by decide)
  · obtain ⟨entry, listed⟩ := present 0 (by omega)
    obtain ⟨-, field, reached, -⟩ := bound 0 _ (instruction_at listed)
    have none : (built id entries).message.fieldCount = 0 := by
      rw [fieldCount_built, ← exact_]
      rfl
    rw [Message.getField, none, if_pos (UInt16.le_iff_toNat_le.mpr (Nat.zero_le _))] at reached
    exact absurd reached (by simp)

theorem paired_finished {slot : UInt8} : ((finished id entries).setIndex slot).Paired ↔
    entries.length < 65536 ∧ ∀ entry ∈ entries, entry.1 = entry.2.fieldType := by
  have field_at : ∀ {place : Nat} {entry : FieldType × FieldInstruction},
      entries.length < 65536 → entries[place]? = some entry →
        (built id entries).message.getField (UInt16.ofNat place) = some (Field.new entry.1) := by
    intro place entry few listed
    have inside := (List.getElem?_eq_some_iff.mp listed).1
    have below : ¬UInt16.ofNat place ≥ UInt16.ofNat entries.length := by
      rw [ge_iff_le, UInt16.le_iff_toNat_le]
      simp only [UInt16.toNat_ofNat']
      omega
    rw [Message.getField, fieldCount_built, if_neg below, fields_built, UInt16.toNat_ofNat',
      Nat.mod_eq_of_lt (by omega), List.getElem?_map, listed, Option.map_some]
  constructor
  · intro paired
    have few := length_lt_of_paired paired
    refine ⟨few, fun entry member => ?_⟩
    obtain ⟨message, held, -, bound⟩ := paired
    obtain rfl : (built id entries).message = message := Option.some_inj.mp held
    obtain ⟨place, listed⟩ := List.mem_iff_getElem?.mp member
    obtain ⟨-, field, reached, type⟩ := bound place _ (instruction_at listed)
    rw [FieldInstruction.index_setIndex, field_at few listed, Option.some_inj] at reached
    subst reached
    simpa using type
  · rintro ⟨few, typed⟩
    refine ⟨(built id entries).message, rfl, ?_, fun place instruction found => ?_⟩
    · rw [fields_built, List.length_map]
      exact (congrArg List.length instructions_built).trans List.length_mapIdx
    · have same : (built id entries).tmp.instructions[place]? = some instruction := found
      rw [instructions_built, List.getElem?_mapIdx, Option.map_eq_some_iff] at same
      obtain ⟨entry, listed, rfl⟩ := same
      have inside := (List.getElem?_eq_some_iff.mp listed).1
      refine ⟨?_, Field.new entry.1, ?_, ?_⟩
      · rw [FieldInstruction.index_setIndex, UInt16.toNat_ofNat']
        omega
      · rw [FieldInstruction.index_setIndex]
        exact field_at few listed
      · rw [FieldInstruction.fieldType_setIndex, Field.type_new]
        exact typed entry (List.mem_of_getElem? listed)

end XmlTemplateParser

/-! ## Field elements -/

namespace XmlElement

open XmlTemplateParser

variable (element : XmlElement)

/-- The element has an action, and it or the element's name is empty: the loop is left. -/
def ends : Bool :=
  match element.attributeValue "action" with
  | none => false
  | some insType => element.name.isEmpty || insType.isEmpty

/-- The name is one of the five that the loop tests for. -/
def supported : Bool := element.name ∈ ["int64", "uint64", "int32", "uint32", "string"]

/-- The element has an action, and the action is one of the two if the name is one of the five. -/
def Acts : Prop :=
  ∃ insType, element.attributeValue "action" = some insType ∧
    (element.supported = true → insType ∈ ["delta", "copy"])

/-- The field and the instruction that the element adds, if its name is one of the five. -/
def entries : List (FieldType × FieldInstruction) :=
  match fieldClass element.name, (element.attributeValue "action").bind actionType with
  | some (type, create), some action => [(type, create action)]
  | _, _ => []

end XmlElement

namespace XmlTemplateParser

/-- The field elements that the inner loop goes through. -/
def reachedFields (children : List XmlElement) : List XmlElement :=
  children.takeWhile fun element => !element.ends

/-- What the field elements of a template add. -/
def entriesOf (children : List XmlElement) : List (FieldType × FieldInstruction) :=
  (reachedFields children).flatMap XmlElement.entries

variable {element : XmlElement} {children : List XmlElement} {parsing : Parsing}

theorem isSome_fieldClass : (fieldClass element.name).isSome = element.supported := by
  unfold fieldClass XmlElement.supported
  split_ifs with int64 uint64 int32 uint32 string <;> simp [*]

theorem isSome_actionType {insType : String} :
    (actionType insType).isSome = true ↔ insType ∈ ["delta", "copy"] := by
  unfold actionType
  split_ifs with delta copy <;> simp [*]

theorem reachedFields_of_ends (ends : element.ends = true) :
    reachedFields (element :: children) = [] := by
  simp [reachedFields, ends]

theorem reachedFields_of_goes (goes : element.ends = false) :
    reachedFields (element :: children) = element :: reachedFields children := by
  simp [reachedFields, goes]

theorem parseFields_of_ends (ends : element.ends = true) :
    parseFields (element :: children) parsing = some parsing := by
  rw [XmlElement.ends] at ends
  rw [parseFields]
  cases action : element.attributeValue "action" with
  | none => simp [action] at ends
  | some insType =>
      rw [action] at ends
      exact if_pos ends

/-- An element that acts adds its field and its instruction, if any, and the loop goes on. -/
theorem parseFields_of_acts (goes : element.ends = false) (acts : element.Acts) :
    parseFields (element :: children) parsing =
      parseFields children
        (element.entries.foldl (fun parsing entry => parsing.add entry.1 entry.2) parsing) := by
  obtain ⟨insType, action, known⟩ := acts
  rw [XmlElement.ends, action] at goes
  have filled : ¬(element.name.isEmpty || insType.isEmpty) = true := Bool.eq_false_iff.mp goes
  rw [parseFields, action, XmlElement.entries, action, Option.bind_some]
  dsimp only
  rw [if_neg filled]
  cases class_ : fieldClass element.name with
  | none => rfl
  | some both =>
      rw [← isSome_fieldClass, class_] at known
      obtain ⟨type, taken⟩ := Option.isSome_iff_exists.mp (isSome_actionType.mpr (known rfl))
      rw [taken]
      rfl

/-- At an element that does not act behaviour is undefined. -/
theorem parseFields_of_not_acts (goes : element.ends = false) (idle : ¬element.Acts) :
    parseFields (element :: children) parsing = none := by
  rw [parseFields]
  cases action : element.attributeValue "action" with
  | none => rfl
  | some insType =>
      rw [XmlElement.ends, action] at goes
      have filled : ¬(element.name.isEmpty || insType.isEmpty) = true :=
        Bool.eq_false_iff.mp goes
      dsimp only
      rw [if_neg filled]
      cases class_ : fieldClass element.name with
      | none =>
          refine absurd ⟨insType, action, fun known => ?_⟩ idle
          rw [← isSome_fieldClass, class_] at known
          exact absurd known (by simp)
      | some both =>
          cases taken : actionType insType with
          | none => rfl
          | some type =>
              exact absurd ⟨insType, action, fun _ => isSome_actionType.mp (by simp [taken])⟩ idle

theorem parseFields_eq (acts : ∀ element ∈ reachedFields children, element.Acts) :
    parseFields children parsing =
      some ((entriesOf children).foldl (fun parsing entry => parsing.add entry.1 entry.2)
        parsing) := by
  induction children generalizing parsing with
  | nil => rfl
  | cons element children ih =>
      rw [entriesOf]
      cases ends : element.ends with
      | true => rw [parseFields_of_ends ends, reachedFields_of_ends ends]; rfl
      | false =>
          rw [reachedFields_of_goes ends] at acts ⊢
          obtain ⟨here, later⟩ := List.forall_mem_cons.mp acts
          rw [parseFields_of_acts ends here, ih later, List.flatMap_cons, List.foldl_append]
          rfl

theorem acts_of_parseFields {result : Parsing}
    (parsed : parseFields children parsing = some result) :
    ∀ element ∈ reachedFields children, element.Acts := by
  induction children generalizing parsing with
  | nil => simp [reachedFields]
  | cons element children ih =>
      cases ends : element.ends with
      | true => simp [reachedFields_of_ends ends]
      | false =>
          rw [reachedFields_of_goes ends, List.forall_mem_cons]
          by_cases acts : element.Acts
          · rw [parseFields_of_acts ends acts] at parsed
            exact ⟨acts, ih parsed⟩
          · rw [parseFields_of_not_acts ends acts] at parsed
            exact absurd parsed (by simp)

/-! ## Template elements -/

/-- The element has an integer for its id, and elements below it. -/
def readable (it : XmlElement) : Bool := (it.queryIntAttribute "id").isSome && !it.children.isEmpty

/-- The template elements that the outer loop goes through. -/
def reached (siblings : List XmlElement) : List XmlElement := siblings.takeWhile readable

/-- The loop is left at an element whose id is not an integer. -/
def Refused (siblings : List XmlElement) : Prop :=
  ∃ it, (siblings.dropWhile readable).head? = some it ∧ it.queryIntAttribute "id" = none

/-- The id of a template element. -/
def idOf (it : XmlElement) : UInt32 := (it.queryIntAttribute "id").getD 0

/-- The template that an element is turned into. -/
def templateOf (it : XmlElement) : Template := finished (idOf it) (entriesOf it.children)

/-- Every field element that is reached acts. -/
def AllAct (siblings : List XmlElement) : Prop :=
  ∀ it ∈ reached siblings, ∀ element ∈ reachedFields it.children, element.Acts

variable {it : XmlElement} {siblings : List XmlElement} {tmps : Templates}

theorem parseTemplates_of_refused (refused : it.queryIntAttribute "id" = none) :
    parseTemplates (it :: siblings) tmps = some none := by
  rw [parseTemplates, refused]

theorem parseTemplates_of_empty {templateId : UInt32}
    (named : it.queryIntAttribute "id" = some templateId) (empty : it.children.isEmpty = true) :
    parseTemplates (it :: siblings) tmps = some (some tmps) := by
  rw [parseTemplates, named]
  exact if_pos empty

theorem parseTemplates_of_readable (read : readable it = true) :
    parseTemplates (it :: siblings) tmps =
      (parseFields it.children ⟨Template.new (idOf it), Message.new⟩).bind fun parsing =>
        parseTemplates siblings (tmps.addTemplate (parsing.tmp.setMessage parsing.message)) := by
  obtain ⟨named, children⟩ := Bool.and_eq_true_iff.mp read
  obtain ⟨templateId, found⟩ := Option.isSome_iff_exists.mp named
  rw [parseTemplates, found, idOf, found]
  dsimp only
  rw [if_neg (by simpa using children), Option.getD_some]
  cases parseFields it.children ⟨Template.new templateId, Message.new⟩ <;> rfl

theorem reached_of_readable (read : readable it = true) :
    reached (it :: siblings) = it :: reached siblings := by
  simp [reached, read]

theorem reached_of_not_readable (unread : readable it = false) : reached (it :: siblings) = [] := by
  simp [reached, unread]

theorem refused_of_readable (read : readable it = true) :
    Refused (it :: siblings) ↔ Refused siblings := by
  simp [Refused, read]

theorem refused_of_not_readable (unread : readable it = false) :
    Refused (it :: siblings) ↔ it.queryIntAttribute "id" = none := by
  simp [Refused, unread]

theorem allAct_of_readable (read : readable it = true) : AllAct (it :: siblings) ↔
    (∀ element ∈ reachedFields it.children, element.Acts) ∧ AllAct siblings := by
  rw [AllAct, reached_of_readable read, List.forall_mem_cons]
  rfl

/-- An element whose fields all act is added as a template, and the loop goes on. -/
theorem parseTemplates_of_acts (read : readable it = true)
    (acts : ∀ element ∈ reachedFields it.children, element.Acts) :
    parseTemplates (it :: siblings) tmps =
      parseTemplates siblings (tmps.addTemplate (templateOf it)) := by
  rw [parseTemplates_of_readable read, parseFields_eq acts, Option.bind_some]
  rfl

theorem allAct_of_parseTemplates {result : Option Templates}
    (parsed : parseTemplates siblings tmps = some result) : AllAct siblings := by
  induction siblings generalizing tmps with
  | nil => simp [AllAct, reached]
  | cons it siblings ih =>
      cases read : readable it with
      | false => simp [AllAct, reached_of_not_readable read]
      | true =>
          rw [parseTemplates_of_readable read, Option.bind_eq_some_iff] at parsed
          obtain ⟨parsing, fields, later⟩ := parsed
          exact (allAct_of_readable read).mpr ⟨acts_of_parseFields fields, ih later⟩

theorem parseTemplates_refused (acts : AllAct siblings) (refused : Refused siblings) :
    parseTemplates siblings tmps = some none := by
  induction siblings generalizing tmps with
  | nil => simp [Refused] at refused
  | cons it siblings ih =>
      cases read : readable it with
      | false => exact parseTemplates_of_refused ((refused_of_not_readable read).mp refused)
      | true =>
          obtain ⟨here, later⟩ := (allAct_of_readable read).mp acts
          rw [parseTemplates_of_acts read here]
          exact ih later ((refused_of_readable read).mp refused)

/-- The loop adds a template for every element that it reaches. -/
theorem parseTemplates_accepted (acts : AllAct siblings) (accepted : ¬Refused siblings) :
    parseTemplates siblings tmps =
      some (some (((reached siblings).map templateOf).foldl Templates.addTemplate tmps)) := by
  induction siblings generalizing tmps with
  | nil => rfl
  | cons it siblings ih =>
      cases read : readable it with
      | false =>
          rw [refused_of_not_readable read, ← ne_eq, Option.ne_none_iff_exists'] at accepted
          obtain ⟨templateId, named⟩ := accepted
          have empty : it.children.isEmpty = true := by simpa [readable, named] using read
          rw [parseTemplates_of_empty named empty, reached_of_not_readable read]
          rfl
      | true =>
          obtain ⟨here, later⟩ := (allAct_of_readable read).mp acts
          rw [refused_of_readable read] at accepted
          rw [parseTemplates_of_acts read here, ih later accepted, reached_of_readable read]
          rfl

end XmlTemplateParser

/-! ## The set of templates -/

namespace XmlTemplateParser

/-! ## Sound templates -/

/-- A template whose message counts all its fields, and no field of which is of the type that its
instruction passes over. -/
def Sound (it : XmlElement) : Prop :=
  (reachedFields it.children).countP XmlElement.supported < 65536 ∧
    ∀ element ∈ reachedFields it.children, element.name ≠ "int32"

/-- The element is turned into a template, and none with its id comes later. -/
def Kept (siblings : List XmlElement) (it : XmlElement) : Prop :=
  ∃ before after, reached siblings = before ++ it :: after ∧ ∀ later ∈ after, idOf later ≠ idOf it

/-- The template elements of a document, none if it is not well formed. -/
def elementsOf (document : Option (List XmlElement)) : List XmlElement :=
  (document.map templateElements).getD []

/-- The document is parsed without undefined behaviour, and each template of the result reads and
writes its fields. -/
def ParsesSoundly (document : Option (List XmlElement)) : Prop :=
  ∃ result, parse document = some result ∧
    ∀ templates, result = some templates → ∀ id template,
      templates.getTemplate id = some template → template.Paired

variable {element : XmlElement} {it : XmlElement} {siblings : List XmlElement}

/-- Of the five classes one has an instruction of another type than its field. -/
theorem fieldType_of_fieldClass {name : String} {type : FieldType}
    {create : InstructionType → FieldInstruction} (known : fieldClass name = some (type, create))
    (action : InstructionType) : type = (create action).fieldType ↔ name ≠ "int32" := by
  unfold fieldClass at known
  split_ifs at known with int64 uint64 int32 uint32 string <;>
    · cases known
      simp [*, FieldInstruction.fieldType]

theorem length_entries (acts : element.Acts) :
    element.entries.length = if element.supported then 1 else 0 := by
  obtain ⟨insType, action, known⟩ := acts
  rw [← isSome_fieldClass] at known ⊢
  rw [XmlElement.entries, action, Option.bind_some]
  cases class_ : fieldClass element.name with
  | none => rfl
  | some both =>
      rw [class_] at known
      obtain ⟨type, taken⟩ := Option.isSome_iff_exists.mp (isSome_actionType.mpr (known rfl))
      rw [taken]
      rfl

theorem typed_entries (acts : element.Acts) :
    (∀ entry ∈ element.entries, entry.1 = entry.2.fieldType) ↔ element.name ≠ "int32" := by
  obtain ⟨insType, action, known⟩ := acts
  rw [← isSome_fieldClass] at known
  rw [XmlElement.entries, action, Option.bind_some]
  cases class_ : fieldClass element.name with
  | none =>
      have other : element.name ≠ "int32" := by
        intro same
        rw [same] at class_
        exact absurd class_ (by decide)
      simp [other]
  | some both =>
      rw [class_] at known
      obtain ⟨type, taken⟩ := Option.isSome_iff_exists.mp (isSome_actionType.mpr (known rfl))
      rw [taken, ← fieldType_of_fieldClass class_ type]
      simp

theorem length_entriesOf {children : List XmlElement}
    (acts : ∀ element ∈ reachedFields children, element.Acts) :
    (entriesOf children).length = (reachedFields children).countP XmlElement.supported := by
  rw [entriesOf]
  generalize reachedFields children = elements at acts ⊢
  induction elements with
  | nil => rfl
  | cons element elements ih =>
      obtain ⟨here, later⟩ := List.forall_mem_cons.mp acts
      rw [List.flatMap_cons, List.length_append, ih later, length_entries here, List.countP_cons,
        Nat.add_comm]

theorem paired_templateOf {slot : UInt8}
    (acts : ∀ element ∈ reachedFields it.children, element.Acts) :
    ((templateOf it).setIndex slot).Paired ↔ Sound it := by
  rw [templateOf, paired_finished, length_entriesOf acts, Sound, entriesOf]
  simp only [List.mem_flatMap]
  refine and_congr_right fun _ => ⟨fun typed element member => ?_, ?_⟩
  · exact (typed_entries (acts element member)).mp fun entry inside =>
      typed entry ⟨element, member, inside⟩
  · rintro named entry ⟨element, member, inside⟩
    exact (typed_entries (acts element member)).mpr (named element member) entry inside

theorem id_templateOf : (templateOf it).id = idOf it := id_built

/-- The templates of the result are those of the elements kept. -/
theorem getTemplate_reached {id : UInt32} {template : Template} :
    (Templates.ofList ((reached siblings).map templateOf)).getTemplate id = some template ↔
      ∃ it before after, reached siblings = before ++ it :: after ∧ idOf it = id ∧
        (∀ later ∈ after, idOf later ≠ id) ∧
        template = (templateOf it).setIndex (UInt8.ofNat before.length) := by
  rw [Templates.getTemplate_ofList_iff]
  constructor
  · rintro ⟨before, original, after, shape, named, fresh, rfl⟩
    obtain ⟨front, rest, split, rfl, tail⟩ := List.map_eq_append_iff.mp shape
    obtain ⟨it, back, rfl, rfl, rfl⟩ := List.map_eq_cons_iff.mp tail
    refine ⟨it, front, back, split, id_templateOf.symm.trans named, fun later member => ?_, ?_⟩
    · rw [← id_templateOf]
      exact fresh _ (List.mem_map_of_mem member)
    · rw [List.length_map]
  · rintro ⟨it, before, after, split, named, fresh, rfl⟩
    refine ⟨before.map templateOf, templateOf it, after.map templateOf, ?_,
      id_templateOf.trans named, ?_, ?_⟩
    · rw [split, List.map_append, List.map_cons]
    · simpa [id_templateOf] using fresh
    · rw [List.length_map]

/-- A document is parsed to templates that read and write their fields just if every field element
reached has an action, one of the two where the name is one of the five, and the set is refused for
an id or each template kept is of less than 65536 fields, none of them an `int32`. -/
theorem parsesSoundly_iff (document : Option (List XmlElement)) : ParsesSoundly document ↔
    AllAct (elementsOf document) ∧
      (Refused (elementsOf document) ∨ ∀ it, Kept (elementsOf document) it → Sound it) := by
  cases document with
  | none => simp [ParsesSoundly, parse, elementsOf, AllAct, Refused, Kept, reached]
  | some document =>
      have elements : elementsOf (some document) = templateElements document := rfl
      rw [elements, ParsesSoundly, parse]
      constructor
      · rintro ⟨result, parsed, sound⟩
        have acts := allAct_of_parseTemplates parsed
        refine ⟨acts, or_iff_not_imp_left.mpr fun accepted it kept => ?_⟩
        rw [parseTemplates_accepted acts accepted, Option.some_inj] at parsed
        obtain ⟨before, after, split, last⟩ := kept
        have member : it ∈ reached (templateElements document) := by simp [split]
        exact (paired_templateOf (acts it member)).mp
          (sound _ parsed.symm (idOf it) _
            (getTemplate_reached.mpr ⟨it, before, after, split, rfl, last, rfl⟩))
      · rintro ⟨acts, kept⟩
        by_cases refused : Refused (templateElements document)
        · exact ⟨none, parseTemplates_refused acts refused, by simp⟩
        · refine ⟨_, parseTemplates_accepted acts refused, ?_⟩
          rintro templates held id template found
          obtain rfl := Option.some_inj.mp held
          obtain ⟨it, before, after, split, rfl, last, rfl⟩ := getTemplate_reached.mp found
          have member : it ∈ reached (templateElements document) := by simp [split]
          exact (paired_templateOf (acts it member)).mpr
            ((kept.resolve_left refused) it ⟨before, after, split, last⟩)

/-- `<template id="1"><int32 action="copy"/></template>` -/
def int32Template : XmlElement :=
  ⟨"template", [("id", "1")], [⟨"int32", [("action", "copy")], []⟩]⟩

/-- An `int32` field is given an instruction that passes it over. -/
theorem int32_not_parsed_soundly :
    ¬ParsesSoundly (some [⟨"templates", [], [int32Template]⟩]) := by
  rintro ⟨result, parsed, sound⟩
  have built_ : parse (some [⟨"templates", [], [int32Template]⟩]) =
      some (some (Templates.new.addTemplate (templateOf int32Template))) := rfl
  rw [built_, Option.some_inj] at parsed
  have paired : ((templateOf int32Template).setIndex 0).Paired := sound _ parsed.symm 1 _ rfl
  have typed := (paired_finished.mp paired).2
  have member : (FieldType.int32, FieldInstruction.uint64 ⟨.copy, true, true, 0⟩) ∈
      entriesOf int32Template.children := List.mem_of_getElem? (i := 0) rfl
  exact absurd (typed _ member) (by decide)

end XmlTemplateParser

end FlashForwarder
