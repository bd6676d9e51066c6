import FlashForwarder.Compressor.ParsedTemplates

/-!
# Which templates the parser keeps

The templates that `parse` returns are those of the elements that its loops reach.  `parsePlaced`
notes which element each template of the set was built from; that element is compared with the
`<template>` elements of the document, of which the last counts for each id.
-/

namespace FlashForwarder

namespace XmlTemplateParser

/-- The types of the fields that some field elements stand for. -/
def fieldTypes (children : List XmlElement) : List FieldType :=
  children.filterMap fun element => (fieldClass element.name).map Prod.fst

/-- The instructions that some field elements stand for, before they are bound to their fields. -/
def instructionsOf (children : List XmlElement) : List FieldInstruction :=
  children.flatMap fun element => element.entries.map Prod.snd

/-- The `<templates>` element of a document. -/
def rootOf (document : List XmlElement) : Option XmlElement :=
  document.find? fun root => root.name = "templates"

/-- The last element with the id that the loop over template elements reaches. -/
def lastReached (siblings : List XmlElement) (id : UInt32) : Option XmlElement :=
  (reached siblings).reverse.find? fun it => idOf it = id

/-- An element below the root, with its place there. -/
abbrev Placed := XmlElement × Nat

/-- The last `<template>` below the root that has the id. -/
def lastTemplate (document : List XmlElement) (id : UInt32) : Option Placed :=
  (rootOf document).bind fun root => root.children.zipIdx.reverse.find? fun it =>
    it.1.name = "template" && it.1.queryIntAttribute "id" = some id

/-- The elements that the outer loop goes through, if it is not left early. -/
def placedElements (document : List XmlElement) : List Placed :=
  match rootOf document with
  | none => []
  | some root => root.children.zipIdx.dropWhile (·.1.name ≠ "template")

/-- `parseTemplates`, which notes for each id the element that the template in the set was built
from. -/
def parsePlaced : List Placed → Templates × (UInt32 → Option Placed) →
    Option (Option (Templates × (UInt32 → Option Placed)))
  | [], held => some (some held)
  | it :: siblings, held =>
      match it.1.queryIntAttribute "id" with
      | none => some none
      | some templateId =>
          if it.1.children.isEmpty then some (some held)
          else
            match parseFields it.1.children ⟨Template.new templateId, Message.new⟩ with
            | none => none
            | some parsing =>
                let tmp := parsing.tmp.setMessage parsing.message
                parsePlaced siblings (held.1.addTemplate tmp,
                  fun id => if id = tmp.id then some it else held.2 id)

/-- The template has the id, one field for each field element with one of the five names, and the
instructions of these elements. -/
def BuiltFrom (id : UInt32) (it : XmlElement) (template : Template) : Prop :=
  template.id = id ∧
    (∃ message, template.inputMessage = some message ∧
      message.fields = (fieldTypes it.children).map Field.new) ∧
    template.instructions = (instructionsOf it.children).mapIdx fun place instruction =>
      instruction.setIndex (UInt16.ofNat place)

/-- `parse` returns null, or a set that holds for each id the template of the last `<template>` with
that id, built from that very element and as it says, and nothing else. -/
def KeepsTemplates (document : List XmlElement) : Prop :=
  ∃ result, parsePlaced (placedElements document) (Templates.new, fun _ => none) = some result ∧
    ∀ templates origins, result = some (templates, origins) → ∀ id,
      origins id = lastTemplate document id ∧
        Option.Rel (fun it template => BuiltFrom id it.1 template) (origins id)
          (templates.getTemplate id)

/-- The last of some elements with the id that the loop over template elements reaches. -/
def lastUsed (elements : List Placed) (id : UInt32) : Option Placed :=
  (elements.takeWhile (readable ·.1)).reverse.find? fun it => idOf it.1 = id

/-- No field element with one of the five names stands behind the first with an empty action or
name. -/
def Complete (it : XmlElement) : Prop :=
  ∀ element ∈ it.children.dropWhile (!·.ends), element.supported = false

variable {it : XmlElement} {siblings : List XmlElement} {id : UInt32}

theorem map_fst_entriesOf {children : List XmlElement}
    (acts : ∀ element ∈ reachedFields children, element.Acts) :
    (entriesOf children).map Prod.fst = fieldTypes (reachedFields children) := by
  rw [entriesOf]
  generalize reachedFields children = elements at acts ⊢
  induction elements with
  | nil => rfl
  | cons element elements ih =>
      obtain ⟨here, later⟩ := List.forall_mem_cons.mp acts
      obtain ⟨insType, action, known⟩ := here
      rw [← isSome_fieldClass] at known
      rw [List.flatMap_cons, List.map_append, ih later, fieldTypes, fieldTypes,
        List.filterMap_cons, XmlElement.entries, action, Option.bind_some]
      cases class_ : fieldClass element.name with
      | none => rfl
      | some both =>
          rw [class_] at known
          obtain ⟨type, taken⟩ := Option.isSome_iff_exists.mp (isSome_actionType.mpr (known rfl))
          rw [taken]
          rfl

/-- The elements reached make up all fields just if none stands behind them. -/
theorem fieldTypes_reached_iff :
    fieldTypes it.children = fieldTypes (reachedFields it.children) ↔ Complete it := by
  have split : fieldTypes it.children = fieldTypes (reachedFields it.children) ++
      fieldTypes (it.children.dropWhile (!·.ends)) := by
    rw [fieldTypes, fieldTypes, fieldTypes, ← List.filterMap_append, reachedFields,
      List.takeWhile_append_dropWhile]
  rw [split, List.append_right_eq_self, fieldTypes, List.filterMap_eq_nil_iff, Complete]
  refine forall₂_congr fun element _ => ?_
  rw [Option.map_eq_none_iff, ← isSome_fieldClass, Option.isSome_eq_false_iff,
    Option.isNone_iff_eq_none]

theorem instructionsOf_reached (complete : Complete it) :
    instructionsOf it.children = instructionsOf (reachedFields it.children) := by
  have none_ : instructionsOf (it.children.dropWhile (!·.ends)) = [] := by
    rw [instructionsOf, List.flatMap_eq_nil_iff]
    intro element member
    have unknown := complete element member
    rw [← isSome_fieldClass, Option.isSome_eq_false_iff, Option.isNone_iff_eq_none] at unknown
    rw [XmlElement.entries, unknown]
    rfl
  rw [← List.append_nil (instructionsOf (reachedFields it.children)), ← none_, instructionsOf,
    instructionsOf, instructionsOf, ← List.flatMap_append, reachedFields,
    List.takeWhile_append_dropWhile]

/-- The template of an element is as the element says just if all its field elements are reached. -/
theorem builtFrom_templateOf {slot : UInt8} (named : idOf it = id)
    (acts : ∀ element ∈ reachedFields it.children, element.Acts) :
    BuiltFrom id it ((templateOf it).setIndex slot) ↔ Complete it := by
  have fields : (built (idOf it) (entriesOf it.children)).message.fields =
      (fieldTypes (reachedFields it.children)).map Field.new := by
    rw [fields_built, ← map_fst_entriesOf acts, List.map_map]
    rfl
  have instructions : ((templateOf it).setIndex slot).instructions =
      (instructionsOf (reachedFields it.children)).mapIdx fun place instruction =>
        instruction.setIndex (UInt16.ofNat place) := by
    refine instructions_built.trans ?_
    rw [instructionsOf, ← List.map_flatMap, ← entriesOf]
    apply List.ext_getElem?
    intro place
    simp only [List.getElem?_mapIdx, List.getElem?_map, Option.map_map]
    rfl
  have distinct : Function.Injective Field.new := fun _ _ same => congrArg Field.type same
  rw [← fieldTypes_reached_iff, BuiltFrom, instructions]
  constructor
  · rintro ⟨-, ⟨message, held, same⟩, -⟩
    obtain rfl := Option.some_inj.mp held
    rw [fields] at same
    exact (List.map_injective_iff.mpr distinct same).symm
  · intro same
    have complete := fieldTypes_reached_iff.mp same
    exact ⟨id_templateOf.trans named, ⟨_, rfl, fields.trans (by rw [same])⟩,
      by rw [instructionsOf_reached complete]⟩

/-- What the set holds for an id is the template of the last element reached with it. -/
theorem getTemplate_lastReached (siblings : List XmlElement) (id : UInt32) :
    Option.Rel (fun used template => idOf used = id ∧ used ∈ reached siblings ∧
        ∃ slot, template = (templateOf used).setIndex slot) (lastReached siblings id)
      ((Templates.ofList ((reached siblings).map templateOf)).getTemplate id) := by
  cases last : lastReached siblings id with
  | none =>
      have absent := List.find?_eq_none.mp last
      cases found : (Templates.ofList ((reached siblings).map templateOf)).getTemplate id with
      | none => exact .none
      | some template =>
          obtain ⟨it, before, after, split, named, -⟩ := getTemplate_reached.mp found
          exact absurd (by simpa using named) (absent it (by simp [split]))
  | some used =>
      obtain ⟨named, after, before, split, fresh⟩ := List.find?_eq_some_iff_append.mp last
      rw [List.reverse_eq_iff, List.reverse_append, List.reverse_cons, List.append_assoc] at split
      have named : idOf used = id := by simpa using named
      have found := getTemplate_reached.mpr ⟨used, before.reverse, after.reverse, split, named,
        fun later member => by simpa using fresh later (List.mem_reverse.mp member), rfl⟩
      rw [found]
      exact .some ⟨named, by simp [split], _, rfl⟩

/-! ## The elements behind the set -/

variable {elements : List Placed} {held : Templates × (UInt32 → Option Placed)}

theorem map_fst_placedElements (document : List XmlElement) :
    (placedElements document).map Prod.fst = templateElements document := by
  unfold placedElements templateElements rootOf
  cases document.find? fun root => root.name = "templates" with
  | none => rfl
  | some root =>
      change (root.children.zipIdx.dropWhile
        ((fun it : XmlElement => decide (it.name ≠ "template")) ∘ Prod.fst)).map Prod.fst = _
      rw [← List.dropWhile_map, List.zipIdx_map_fst]

theorem parsePlaced_fst : (parsePlaced elements held).map (Option.map Prod.fst) =
    parseTemplates (elements.map Prod.fst) held.1 := by
  induction elements generalizing held with
  | nil => rfl
  | cons it elements ih =>
      rw [parsePlaced, List.map_cons, parseTemplates]
      cases it.1.queryIntAttribute "id" with
      | none => rfl
      | some templateId =>
          dsimp only
          split
          · rfl
          · cases parseFields it.1.children ⟨Template.new templateId, Message.new⟩ with
            | none => rfl
            | some parsing => exact ih

theorem parse_eq_parsePlaced (document : List XmlElement) : parse (some document) =
    (parsePlaced (placedElements document) (Templates.new, fun _ => none)).map
      (Option.map Prod.fst) := by
  rw [parsePlaced_fst, map_fst_placedElements, parse]

theorem lastUsed_cons {it : Placed} (read : readable it.1 = true) :
    lastUsed (it :: elements) id =
      (lastUsed elements id).or (if id = idOf it.1 then some it else none) := by
  have taken : (it :: elements).takeWhile (readable ·.1) =
      it :: elements.takeWhile (readable ·.1) := List.takeWhile_cons_of_pos read
  rw [lastUsed, taken, List.reverse_cons, List.find?_append, lastUsed]
  congr 1
  by_cases same : id = idOf it.1 <;> simp [same, eq_comm]

theorem map_fst_lastUsed :
    (lastUsed elements id).map Prod.fst = lastReached (elements.map Prod.fst) id := by
  rw [lastReached, reached, List.takeWhile_map, ← List.map_reverse, List.find?_map]
  rfl

/-- A template is added, and its element noted, for every element that the loop reaches. -/
theorem parsePlaced_accepted (acts : AllAct (elements.map Prod.fst))
    (accepted : ¬Refused (elements.map Prod.fst)) :
    parsePlaced elements held = some (some
      (((reached (elements.map Prod.fst)).map templateOf).foldl Templates.addTemplate held.1,
        fun id => (lastUsed elements id).or (held.2 id))) := by
  induction elements generalizing held with
  | nil => rfl
  | cons it elements ih =>
      rw [List.map_cons] at acts accepted ⊢
      rw [parsePlaced]
      cases read : readable it.1 with
      | false =>
          rw [refused_of_not_readable read, ← ne_eq, Option.ne_none_iff_exists'] at accepted
          obtain ⟨templateId, named⟩ := accepted
          have empty : it.1.children.isEmpty = true := by simpa [readable, named] using read
          have none_ : lastUsed (it :: elements) = fun _ => none := by
            funext other
            simp [lastUsed, read]
          rw [named, none_, reached_of_not_readable read]
          exact if_pos empty
      | true =>
          obtain ⟨here, later⟩ := (allAct_of_readable read).mp acts
          rw [refused_of_readable read] at accepted
          obtain ⟨named, children⟩ := Bool.and_eq_true_iff.mp read
          obtain ⟨templateId, found⟩ := Option.isSome_iff_exists.mp named
          have isId : idOf it.1 = templateId := by rw [idOf, found, Option.getD_some]
          rw [found, reached_of_readable read]
          dsimp only
          rw [if_neg (by simpa using children), parseFields_eq here, ← isId]
          refine (ih later accepted).trans (congrArg (fun origins => some (some (_, origins))) ?_)
          funext id
          have same : (templateOf it.1).id = idOf it.1 := id_templateOf
          change (lastUsed elements id).or (if id = (templateOf it.1).id then _ else _) = _
          rw [lastUsed_cons read, same, Option.or_assoc]
          split <;> rfl

/-- What the set holds is as the elements say that it was built from just if all field elements of
these are reached. -/
theorem builtFrom_iff (acts : AllAct (elements.map Prod.fst)) (id : UInt32) :
    Option.Rel (fun it template => BuiltFrom id it.1 template) (lastUsed elements id)
        ((Templates.ofList ((reached (elements.map Prod.fst)).map templateOf)).getTemplate id) ↔
      ∀ it, lastUsed elements id = some it → Complete it.1 := by
  have holds := getTemplate_lastReached (elements.map Prod.fst) id
  rw [← map_fst_lastUsed] at holds
  generalize lastUsed elements id = last at holds ⊢
  generalize (Templates.ofList ((reached (elements.map Prod.fst)).map templateOf)).getTemplate id =
    template at holds ⊢
  cases last with
  | none =>
      cases holds
      simp
  | some it =>
      cases holds with
      | some holds =>
          obtain ⟨named, member, slot, rfl⟩ := holds
          rw [Option.rel_some_some, builtFrom_templateOf named (acts _ member)]
          simp

/-- The parser keeps the templates of a document just if every field element reached has an action,
one of the two where the name is one of the five, and the set is refused for an id or for each id
the last element reached is the last `<template>`, and no field is left out of it. -/
theorem keepsTemplates_iff (document : List XmlElement) : KeepsTemplates document ↔
    AllAct (templateElements document) ∧
      (Refused (templateElements document) ∨ ∀ id,
        lastUsed (placedElements document) id = lastTemplate document id ∧
          ∀ it, lastTemplate document id = some it → Complete it.1) := by
  have erased := parse_eq_parsePlaced document
  rw [parse, ← map_fst_placedElements] at erased
  rw [← map_fst_placedElements]
  constructor
  · rintro ⟨result, parsed, kept⟩
    rw [parsed, Option.map_some] at erased
    have acts := allAct_of_parseTemplates erased
    refine ⟨acts, or_iff_not_imp_left.mpr fun accepted id => ?_⟩
    obtain rfl := Option.some_inj.mp (parsed.symm.trans (parsePlaced_accepted acts accepted))
    obtain ⟨same, built⟩ := kept _ _ rfl id
    rw [Option.or_none] at same built
    exact ⟨same, same ▸ (builtFrom_iff acts id).mp built⟩
  · rintro ⟨acts, same⟩
    by_cases refused : Refused ((placedElements document).map Prod.fst)
    · rw [parseTemplates_refused acts refused, eq_comm, Option.map_eq_some_iff] at erased
      obtain ⟨result, parsed, none_⟩ := erased
      obtain rfl := Option.map_eq_none_iff.mp none_
      exact ⟨none, parsed, by simp⟩
    · refine ⟨_, parsePlaced_accepted acts refused, ?_⟩
      rintro _ _ ⟨⟩ id
      obtain ⟨last, complete⟩ := same.resolve_left refused id
      dsimp only
      rw [Option.or_none]
      exact ⟨last, (builtFrom_iff acts id).mpr (last ▸ complete)⟩

/-- `<templates><template id="1"/><template id="2"><int64 action="copy"/></template></templates>` -/
def emptyAndFull : XmlElement :=
  ⟨"templates", [], [⟨"template", [("id", "1")], []⟩,
    ⟨"template", [("id", "2")], [⟨"int64", [("action", "copy")], []⟩]⟩]⟩

/-- The first template has no fields, so the second is left out as well. -/
theorem later_template_not_kept :
    ¬∀ document : List XmlElement, (rootOf document).isSome → KeepsTemplates document := by
  intro claimed
  obtain ⟨result, parsed, kept⟩ := claimed [emptyAndFull] rfl
  have nothing : parsePlaced (placedElements [emptyAndFull]) (Templates.new, fun _ => none) =
      some (some (Templates.new, fun _ => none)) := rfl
  obtain ⟨none_, -⟩ := kept _ _ (Option.some_inj.mp (parsed.symm.trans nothing)) 2
  have last : (lastTemplate [emptyAndFull] 2).isSome = true := rfl
  rw [← none_] at last
  cases last

end XmlTemplateParser

end FlashForwarder
