import FlashForwarder.Compressor.MessageExchange

/-!
# Presence bits

The presence map has 32 bits, of which bit 31 says that a message is in full.  The index of a field
has 16 bits, and nothing limits the number of fields: field 31 uses the bit of full messages, and
fields 32 apart share a bit.
-/

namespace FlashForwarder

/-- The bit of a field. -/
def presenceBit (index : UInt16) : UInt32 := (1 : UInt32) <<< index.toUInt32

theorem setpMap_eq (pMap : UInt32) (index : UInt16) :
    setpMap pMap index = pMap ||| presenceBit index := rfl

theorem presenceBit_inj {index other : UInt16} (small : index.toNat < 32)
    (otherSmall : other.toNat < 32) (same : presenceBit index = presenceBit other) :
    index = other := by
  have here := marked_setpMap 0 small otherSmall
  rw [setpMap_eq, same, ← setpMap_eq, marked_setpMap 0 otherSmall otherSmall] at here
  simpa [marked] using here

/-! ## Full messages -/

/-- The test at the head of `FieldInstructionInteger::decode`: the message is in full. -/
def FieldInstructionInteger.takesFull (pMap : UInt32) : Bool := pMap &&& fullMap ≠ 0

/-- The test at the head of `FieldInstructionString::decode`. -/
def FieldInstructionString.takesFull (pMap : UInt32) : Bool := pMap = fullMap

/-- With such a map a field is read as in a full message. -/
theorem FieldInstructionInteger.decode_of_takesFull {α : Type} [FieldInteger α] [DecidableEq α]
    (instruction : FieldInstructionInteger α) (memory : Memory) (buffer : Int) (size : UInt64)
    (message cacheMessage : Message) {pMap : UInt32} (full : takesFull pMap = true) :
    instruction.decode memory buffer size message cacheMessage pMap =
      instruction.decode memory buffer size message cacheMessage fullMap := by
  have whole : fullMap &&& fullMap ≠ 0 := by decide
  rw [decode, if_pos (of_decide_eq_true full), decode, if_pos whole]

theorem FieldInstructionString.decode_of_takesFull (instruction : FieldInstructionString)
    (memory : Memory) (buffer : Int) (size : UInt64) (message cacheMessage : Message)
    {pMap : UInt32} (full : takesFull pMap = true) :
    instruction.decode memory buffer size message cacheMessage pMap =
      instruction.decode memory buffer size message cacheMessage fullMap := by
  rw [of_decide_eq_true full]

/-! ## What an instruction sends -/

section

variable {α : Type} [FieldInteger α] [DecidableEq α]

/-- The value that an instruction reads from a message. -/
def FieldInstructionInteger.valueIn (instruction : FieldInstructionInteger α) (message : Message) :
    Option α :=
  (message.getField instruction.index).map (·.getInteger (FieldInteger.ofBits 0))

/-- The instruction has something to send: it sends differences, or the value has changed. -/
def FieldInstructionInteger.sends (instruction : FieldInstructionInteger α)
    (message cacheMessage : Message) : Bool :=
  instruction.type = .delta || instruction.valueIn message ≠ instruction.valueIn cacheMessage

end

/-- The value that an instruction reads from a message. -/
def FieldInstructionString.valueIn (instruction : FieldInstructionString) (message : Message) :
    Option (List UInt8) :=
  (message.getField instruction.index).map (·.getString)

/-- The instruction has something to send: it copies, and the value has changed. -/
def FieldInstructionString.sends (instruction : FieldInstructionString)
    (message cacheMessage : Message) : Bool :=
  instruction.type = .copy && instruction.valueIn message ≠ instruction.valueIn cacheMessage

/-- The instruction has something to send. -/
def FieldInstruction.sends : FieldInstruction → Message → Message → Bool
  | .int64 instruction => instruction.sends
  | .uint64 instruction => instruction.sends
  | .uint32 instruction => instruction.sends
  | .string instruction => instruction.sends

theorem Message.getField_of_modifyField {message updated : Message} {index other : UInt16}
    {change : Field → Field} (modified : message.modifyField index change = some updated)
    (apart : other ≠ index) : updated.getField other = message.getField other := by
  rw [modifyField, Option.map_eq_some_iff] at modified
  obtain ⟨field, -, rfl⟩ := modified
  have places : index.toNat ≠ other.toNat := fun same => apart (UInt16.toNat_inj.mp same.symm)
  simp only [getField, List.getElem?_set_ne places]

/-- What the encoding of a field leaves: its bit is set if there is something to send, and of the
snapshot no other field is touched. -/
structure Sends (instruction : FieldInstruction) (message : Message) (state next : Encoding) :
    Prop where
  pMap : next.pMap =
    if instruction.sends message state.cacheMessage then setpMap state.pMap instruction.index
    else state.pMap
  others : ∀ other, other ≠ instruction.index →
    next.cacheMessage.getField other = state.cacheMessage.getField other

variable {message cacheMessage : Message} {state next : Encoding}

theorem FieldInstructionInteger.sends_of_encode {α : Type} [FieldInteger α] [DecidableEq α]
    {instruction : FieldInstructionInteger α}
    (done : instruction.encode message state = some next) :
    (next.pMap = if instruction.sends message state.cacheMessage then
        setpMap state.pMap instruction.index else state.pMap) ∧
      ∀ other, other ≠ instruction.index →
        next.cacheMessage.getField other = state.cacheMessage.getField other := by
  obtain ⟨field, found, rest⟩ := Option.bind_eq_some_iff.mp done
  obtain ⟨cacheField, cached, rest⟩ := Option.bind_eq_some_iff.mp rest
  rw [sends, valueIn, valueIn, found, cached]
  dsimp only at rest
  cases type : instruction.type with
  | copy =>
      rw [type] at rest
      dsimp only at rest
      split at rest
      · rename_i changed
        obtain ⟨updated, modified, rest⟩ := Option.bind_eq_some_iff.mp rest
        obtain rfl := Option.some_inj.mp rest
        exact ⟨by simp [changed], fun other => Message.getField_of_modifyField modified⟩
      · rename_i same
        obtain rfl := Option.some_inj.mp rest
        exact ⟨by simp [not_not.mp same], fun other _ => rfl⟩
  | delta =>
      rw [type] at rest
      dsimp only at rest
      obtain ⟨updated, modified, rest⟩ := Option.bind_eq_some_iff.mp rest
      obtain rfl := Option.some_inj.mp rest
      exact ⟨by simp, fun other => Message.getField_of_modifyField modified⟩

theorem FieldInstructionString.sends_of_encode {instruction : FieldInstructionString}
    (done : instruction.encode message state = some next) :
    (next.pMap = if instruction.sends message state.cacheMessage then
        setpMap state.pMap instruction.index else state.pMap) ∧
      ∀ other, other ≠ instruction.index →
        next.cacheMessage.getField other = state.cacheMessage.getField other := by
  obtain ⟨cacheField, cached, rest⟩ := Option.bind_eq_some_iff.mp done
  obtain ⟨field, found, rest⟩ := Option.bind_eq_some_iff.mp rest
  rw [sends, valueIn, valueIn, found, cached]
  dsimp only at rest
  cases type : instruction.type with
  | copy =>
      rw [type] at rest
      dsimp only at rest
      split at rest
      · rename_i changed
        obtain ⟨bytes, written, rest⟩ := Option.bind_eq_some_iff.mp rest
        obtain ⟨updated, modified, rest⟩ := Option.bind_eq_some_iff.mp rest
        obtain rfl := Option.some_inj.mp rest
        exact ⟨by simp [changed], fun other => Message.getField_of_modifyField modified⟩
      · rename_i same
        obtain rfl := Option.some_inj.mp rest
        exact ⟨by simp [not_not.mp same], fun other _ => rfl⟩
  | delta =>
      rw [type] at rest
      obtain rfl := Option.some_inj.mp rest
      exact ⟨by simp, fun other _ => rfl⟩

theorem FieldInstruction.sends_of_encode {instruction : FieldInstruction}
    (done : instruction.encode message state = some next) :
    Sends instruction message state next := by
  cases instruction with
  | int64 instruction =>
      obtain ⟨pMap, others⟩ := FieldInstructionInteger.sends_of_encode done
      exact ⟨pMap, others⟩
  | uint64 instruction =>
      obtain ⟨pMap, others⟩ := FieldInstructionInteger.sends_of_encode done
      exact ⟨pMap, others⟩
  | uint32 instruction =>
      obtain ⟨pMap, others⟩ := FieldInstructionInteger.sends_of_encode done
      exact ⟨pMap, others⟩
  | string instruction =>
      obtain ⟨pMap, others⟩ := FieldInstructionString.sends_of_encode done
      exact ⟨pMap, others⟩

/-- What is sent of a field does not depend on the other fields of the snapshot. -/
theorem FieldInstruction.sends_congr {instruction : FieldInstruction} {cacheMessage' : Message}
    (same : cacheMessage'.getField instruction.index = cacheMessage.getField instruction.index) :
    instruction.sends message cacheMessage' = instruction.sends message cacheMessage := by
  cases instruction with
  | int64 instruction =>
      exact congrArg (fun field => decide (instruction.type = .delta) ||
        decide (instruction.valueIn message ≠
          Option.map (·.getInteger (FieldInteger.ofBits 0)) field)) same
  | uint64 instruction =>
      exact congrArg (fun field => decide (instruction.type = .delta) ||
        decide (instruction.valueIn message ≠
          Option.map (·.getInteger (FieldInteger.ofBits 0)) field)) same
  | uint32 instruction =>
      exact congrArg (fun field => decide (instruction.type = .delta) ||
        decide (instruction.valueIn message ≠
          Option.map (·.getInteger (FieldInteger.ofBits 0)) field)) same
  | string instruction =>
      exact congrArg (fun field => decide (instruction.type = .copy) &&
        decide (instruction.valueIn message ≠ Option.map (·.getString) field)) same

theorem le_index_of_mem {instructions : List FieldInstruction} {first : Nat}
    (indexed : IndexedFrom first instructions) {instruction : FieldInstruction}
    (member : instruction ∈ instructions) : first ≤ instruction.index.toNat := by
  induction instructions generalizing first with
  | nil => exact absurd member (by simp)
  | cons head instructions ih =>
      obtain ⟨index, indexed⟩ := indexed
      rcases List.mem_cons.mp member with rfl | later
      · exact Nat.le_of_eq index.symm
      · exact Nat.le_of_succ_le (ih indexed later)

/-- Among at most 32 fields bit 31 is set by field 31 alone. -/
theorem marked_of_encodeFields {instructions : List FieldInstruction} {first : Nat}
    (indexed : IndexedFrom first instructions) (few : first + instructions.length ≤ 32)
    {final : Encoding}
    (done : instructions.foldlM (fun state instruction => instruction.encode message state) state =
      some final) :
    marked final.pMap 31 = true ↔ marked state.pMap 31 = true ∨
      ∃ instruction ∈ instructions, instruction.index = 31 ∧
        instruction.sends message state.cacheMessage = true := by
  induction instructions generalizing first state with
  | nil =>
      obtain rfl := Option.some_inj.mp done
      simp
  | cons instruction instructions ih =>
      obtain ⟨index, indexed⟩ := indexed
      rw [List.length_cons] at few
      rw [List.foldlM_cons] at done
      obtain ⟨next, here, rest⟩ := Option.bind_eq_some_iff.mp done
      obtain ⟨pMap, others⟩ := FieldInstruction.sends_of_encode here
      have small : instruction.index.toNat < 32 := by omega
      have head : marked next.pMap 31 = true ↔ marked state.pMap 31 = true ∨
          instruction.index = 31 ∧ instruction.sends message state.cacheMessage = true := by
        rw [pMap]
        split
        · rename_i sends
          simp [marked_setpMap state.pMap small (show (31 : UInt16).toNat < 32 by decide), sends]
        · rename_i silent
          simp [silent]
      have tail : ∀ later ∈ instructions, later.sends message next.cacheMessage =
          later.sends message state.cacheMessage := by
        intro later member
        have behind := le_index_of_mem indexed member
        refine FieldInstruction.sends_congr (others _ fun same => ?_)
        rw [same] at behind
        omega
      rw [ih indexed (by omega) rest, head]
      simp only [List.mem_cons, or_and_right, exists_or, exists_eq_left, or_assoc]
      refine or_congr_right (or_congr_right ?_)
      exact exists_congr fun later => and_congr_right fun member => by rw [tail later member]

/-! ## The map of a message -/

namespace Template

/-- Each instruction has the index of its place, cut to 16 bits. -/
def Bound (template : Template) : Prop :=
  ∀ place instruction, template.instructions[place]? = some instruction →
    instruction.index = UInt16.ofNat place

theorem bound_new (id : UInt32) : (new id).Bound := by
  intro place instruction found
  exact absurd found (by simp [new])

theorem Bound.addInstruction {template : Template} (bound : template.Bound)
    (instruction : FieldInstruction) : (template.addInstruction instruction).Bound := by
  intro place other found
  rw [Template.addInstruction, List.getElem?_append] at found
  split at found
  · exact bound place other found
  · rename_i behind
    obtain ⟨last, rfl⟩ : place - template.instructions.length = 0 ∧
        instruction.setIndex (UInt16.ofNat template.instructions.length) = other := by
      simpa [List.getElem?_singleton] using found
    have place_eq : place = template.instructions.length := by omega
    rw [place_eq]
    cases instruction <;> rfl

/-- A template made with the public operations. -/
inductive Built : Template → Prop
  | new (id : UInt32) : Built (.new id)
  | addInstruction {template : Template} (built : Built template)
      (instruction : FieldInstruction) : Built (template.addInstruction instruction)
  | setMessage {template : Template} (built : Built template) (message : Message) :
      Built (template.setMessage message)
  | setIndex {template : Template} (built : Built template) (index : UInt8) :
      Built (template.setIndex index)

theorem Built.bound {template : Template} (built : Built template) : template.Bound := by
  induction built with
  | new id => exact bound_new id
  | addInstruction _ instruction ih => exact ih.addInstruction instruction
  | setMessage _ message ih => exact ih
  | setIndex _ index ih => exact ih

/-- The map that `encode` has stored. -/
def storedMap (template : Template) (cacheMessage : Message) (before after : List UInt8) : UInt32 :=
  loadUint32 after (toInt32 (before ++ template.header cacheMessage.index).length).toNat

/-- A presence map that says of each field whether it is sent, and is not that of a full message. -/
structure Tells (template : Template) (pMap : UInt32) : Prop where
  /-- Bit 31 is clear. -/
  clear : pMap &&& fullMap = 0
  /-- No two fields share a bit. -/
  apart : ∀ (place other : Nat) (first second : FieldInstruction),
    template.instructions[place]? = some first → template.instructions[other]? = some second →
      place ≠ other → presenceBit first.index ≠ presenceBit second.index
  /-- The two classes of instructions take the message for the same. -/
  agree : FieldInstructionInteger.takesFull pMap = FieldInstructionString.takesFull pMap

variable {template : Template}

theorem indexedFrom_of_bound {instructions : List FieldInstruction} {first : Nat}
    (few : first + instructions.length ≤ 65536)
    (bound : ∀ place instruction, instructions[place]? = some instruction →
      instruction.index = UInt16.ofNat (first + place)) : IndexedFrom first instructions := by
  induction instructions generalizing first with
  | nil => trivial
  | cons instruction instructions ih =>
      rw [List.length_cons] at few
      refine ⟨?_, ih (by omega) fun place later found => ?_⟩
      · rw [bound 0 instruction rfl, UInt16.toNat_ofNat']
        exact Nat.mod_eq_of_lt (by omega)
      · rw [bound (place + 1) later (by simpa using found)]
        congr 1
        omega

/-- More than 32 fields do not have bits of their own. -/
theorem few_of_apart (bound : template.Bound)
    (apart : ∀ (place other : Nat) (first second : FieldInstruction),
      template.instructions[place]? = some first → template.instructions[other]? = some second →
        place ≠ other → presenceBit first.index ≠ presenceBit second.index) :
    template.instructions.length ≤ 32 := by
  by_contra many
  obtain ⟨first, found⟩ : ∃ first, template.instructions[0]? = some first :=
    ⟨_, List.getElem?_eq_getElem (by omega)⟩
  obtain ⟨second, found'⟩ : ∃ second, template.instructions[32]? = some second :=
    ⟨_, List.getElem?_eq_getElem (by omega)⟩
  refine apart 0 32 first second found found' (by decide) ?_
  rw [bound 0 first found, bound 32 second found']
  decide

theorem apart_of_few (bound : template.Bound) (few : template.instructions.length ≤ 32)
    {place other : Nat} {first second : FieldInstruction}
    (found : template.instructions[place]? = some first)
    (found' : template.instructions[other]? = some second) (different : place ≠ other) :
    presenceBit first.index ≠ presenceBit second.index := by
  intro same
  have inside := (List.getElem?_eq_some_iff.mp found).1
  have inside' := (List.getElem?_eq_some_iff.mp found').1
  rw [bound place first found, bound other second found'] at same
  have equal := congrArg UInt16.toNat (presenceBit_inj
    (by rw [UInt16.toNat_ofNat']; omega) (by rw [UInt16.toNat_ofNat']; omega) same)
  rw [UInt16.toNat_ofNat', UInt16.toNat_ofNat'] at equal
  omega

/-- The map that is stored is that which the instructions leave. -/
theorem exists_encodeFields {cacheMessage : Message} {updated : Message} {before after : List UInt8}
    (done : template.encode message cacheMessage before = some (updated, after)) :
    ∃ state final : Encoding, state.cacheMessage = cacheMessage ∧ state.pMap = 0 ∧
      template.instructions.foldlM
        (fun state instruction => instruction.encode message state) state = some final ∧
      template.storedMap cacheMessage before after = final.pMap := by
  obtain ⟨final, encoded, rest⟩ := Option.bind_eq_some_iff.mp done
  obtain ⟨stored, rest', same⟩ := Option.bind_eq_some_iff.mp rest
  obtain ⟨rfl, rfl⟩ := Prod.mk.inj (Option.some_inj.mp same)
  refine ⟨_, final, rfl, rfl, encoded, ?_⟩
  rw [storePMap] at rest'
  split at rest'
  · rename_i inside
    obtain rfl := Option.some_inj.mp rest'
    rw [storedMap, List.append_assoc]
    refine loadUint32_host ?_ final.pMap _
    rw [List.length_take]
    omega
  · exact absurd rest' (by simp)

/-- The stored map tells which fields are sent just if there are at most 32 fields and field 31, if
there is one, is not sent. -/
theorem tells_iff {cacheMessage : Message} {updated : Message} {before after : List UInt8}
    (built : template.Built)
    (done : template.encode message cacheMessage before = some (updated, after)) :
    template.Tells (template.storedMap cacheMessage before after) ↔
      template.instructions.length ≤ 32 ∧
        ∀ instruction, template.instructions[31]? = some instruction →
          instruction.sends message cacheMessage = false := by
  have bound := built.bound
  obtain ⟨state, final, rfl, empty, encoded, stored⟩ := exists_encodeFields done
  rw [stored]
  have clear_iff (few : template.instructions.length ≤ 32) :
      final.pMap &&& fullMap = 0 ↔ ∀ instruction, template.instructions[31]? = some instruction →
        instruction.sends message state.cacheMessage = false := by
    have indexed : IndexedFrom 0 template.instructions :=
      indexedFrom_of_bound (by omega) (by simpa [Bound] using bound)
    have none : marked state.pMap 31 = false := by rw [empty]; decide
    rw [and_fullMap_eq_zero, ← Bool.not_eq_true, marked_of_encodeFields indexed (by omega) encoded,
      none]
    constructor
    · intro clear instruction found
      by_contra sends
      exact clear (.inr ⟨instruction, List.mem_of_getElem? found, bound 31 instruction found,
        Bool.of_not_eq_false sends⟩)
    · rintro silent (impossible | ⟨instruction, member, index, sends⟩)
      · exact Bool.noConfusion impossible
      · obtain ⟨place, found⟩ := List.getElem?_of_mem member
        have inside := (List.getElem?_eq_some_iff.mp found).1
        have here := congrArg UInt16.toNat ((bound place instruction found).symm.trans index)
        rw [UInt16.toNat_ofNat', Nat.mod_eq_of_lt (by omega)] at here
        obtain rfl : place = 31 := here
        exact Bool.noConfusion ((silent instruction found).symm.trans sends)
  constructor
  · intro tells
    have few := few_of_apart bound tells.apart
    exact ⟨few, (clear_iff few).mp tells.clear⟩
  · rintro ⟨few, silent⟩
    have clear := (clear_iff few).mpr silent
    refine ⟨clear, fun _ _ _ _ found found' different => apart_of_few bound few found found'
      different, ?_⟩
    have partial_ : final.pMap ≠ fullMap := by
      intro whole
      rw [whole] at clear
      exact absurd clear (by decide)
    simp [FieldInstructionInteger.takesFull, FieldInstructionString.takesFull, clear, partial_]

/-- A template of copied 64-bit integers. -/
def ofIntegers : Nat → Template
  | 0 => new 1
  | count + 1 => (ofIntegers count).addInstruction (.int64 ⟨.copy, true, false, 0⟩)

theorem built_ofIntegers : ∀ count, (ofIntegers count).Built
  | 0 => .new 1
  | count + 1 => .addInstruction (built_ofIntegers count) _

/-- A message of which only the last field is not zero. -/
def lastOf (count : Nat) (value : Int64) : Message :=
  ((List.replicate count (Field.new .int64)).foldl Message.addField Message.new).addField
    ((Field.new .int64).setInteger value)

/-- A template with two fields of which the second changes. -/
theorem tells_iff_of_two :
    (ofIntegers 2).Tells ((ofIntegers 2).storedMap (lastOf 1 0) []
        [1, 0, 2, 0, 0, 0, 10]) ↔
      (ofIntegers 2).instructions.length ≤ 32 ∧
        ∀ instruction, (ofIntegers 2).instructions[31]? = some instruction →
          instruction.sends (lastOf 1 5) (lastOf 1 0) = false := by
  have done : (ofIntegers 2).encode (lastOf 1 5) (lastOf 1 0) [] =
      some (lastOf 1 5, [1, 0, 2, 0, 0, 0, 10]) := by decide +kernel
  exact tells_iff (built_ofIntegers 2) done

/-- When the last of 32 fields changes, the map is that of a full message. -/
theorem last_of_32_taken_for_full :
    ¬∀ (template : Template) (message cacheMessage updated : Message) (before after : List UInt8),
      template.Built → template.encode message cacheMessage before = some (updated, after) →
        template.Tells (template.storedMap cacheMessage before after) := by
  intro always
  have done : (ofIntegers 32).encode (lastOf 31 5) (lastOf 31 0) [] =
      some (lastOf 31 5, [1, 0, 0, 0, 0, 128, 10]) := by decide +kernel
  have tells := always _ _ _ _ _ _ (built_ofIntegers 32) done
  exact absurd tells.clear (by decide +kernel)

end Template

end FlashForwarder
