import Mathlib.Algebra.Group.Nat.Defs
import Mathlib.Data.List.Basic
import Mathlib.Tactic.SplitIfs

/-!
# Fields and messages

A field stores a signed, an unsigned and a text member of which its type selects one; an access
through another type is ignored.  A message holds fields behind a 16-bit count.
-/

namespace FlashForwarder

/-- `FieldType` -/
inductive FieldType where
  | int32
  | uint32
  | int64
  | uint64
  | string
  | rawData
  | decimal
  deriving DecidableEq, Repr

/-- The members of `Field`. -/
structure Field where
  /-- `stringValue_` -/
  stringValue : List UInt8
  /-- `sintValue_` -/
  sintValue : Int64
  /-- `uintValue_` -/
  uintValue : UInt64
  /-- `type_` -/
  type : FieldType
  deriving DecidableEq

/-- What the `getValue` overload of a field's own type reads. -/
inductive FieldValue where
  /-- An integer, extended to 64 bits as its type extends it. -/
  | integer (bits : UInt64)
  /-- The bytes of a string. -/
  | text (bytes : List UInt8)
  /-- No overload reads a field of this type. -/
  | unread
  deriving DecidableEq

namespace Field

/-- A field as constructed. -/
def new (type : FieldType) : Field := ⟨[], 0, 0, type⟩

/-- `reset` -/
def reset (field : Field) : Field := ⟨[], 0, 0, field.type⟩

/-- `getValue(std::string&)`, into an empty string. -/
def getString (field : Field) : List UInt8 :=
  if field.type = .string then field.stringValue else []

/-- `setValue(std::string)` -/
def setString (field : Field) (value : List UInt8) : Field :=
  if field.type = .string then { field with stringValue := value } else field

/-- The value that the field's type selects. -/
def value (field : Field) : FieldValue :=
  match field.type with
  | .int32 => .integer field.sintValue.toInt32.toInt64.toUInt64
  | .uint32 => .integer field.uintValue.toUInt32.toUInt64
  | .int64 => .integer field.sintValue.toUInt64
  | .uint64 => .integer field.uintValue
  | .string => .text field.stringValue
  | .rawData => .unread
  | .decimal => .unread

@[simp] theorem type_new (type : FieldType) : (new type).type = type := rfl

@[simp] theorem type_reset (field : Field) : field.reset.type = field.type := rfl

@[simp] theorem type_setString (field : Field) (value : List UInt8) :
    (field.setString value).type = field.type := by
  unfold setString
  split <;> rfl

theorem getString_of_string {field : Field} (string : field.type = .string) :
    field.value = .text field.getString := by
  simp [value, getString, string]

theorem value_setString {field : Field} (string : field.type = .string) (bytes : List UInt8) :
    (field.setString bytes).value = .text bytes := by
  simp [value, setString, string]

end Field

/-- An integer type with its overloads of `getValue` and `setValue`. -/
class FieldInteger (α : Type) where
  /-- The field type that the overloads test for. -/
  fieldType : FieldType
  /-- `sizeof` -/
  size : Nat
  /-- The value converted to 64 bits. -/
  toBits : α → UInt64
  /-- The value cut from 64 bits. -/
  ofBits : UInt64 → α
  /-- The member that the overloads read, converted. -/
  load : Field → α
  /-- The member that the overloads write, converted. -/
  store : Field → α → Field

instance : FieldInteger Int64 where
  fieldType := .int64
  size := 8
  toBits value := value.toUInt64
  ofBits bits := bits.toInt64
  load field := field.sintValue
  store field value := { field with sintValue := value }

instance : FieldInteger UInt64 where
  fieldType := .uint64
  size := 8
  toBits value := value
  ofBits bits := bits
  load field := field.uintValue
  store field value := { field with uintValue := value }

instance : FieldInteger UInt32 where
  fieldType := .uint32
  size := 4
  toBits value := value.toUInt64
  ofBits bits := bits.toUInt32
  load field := field.uintValue.toUInt32
  store field value := { field with uintValue := value.toUInt64 }

/-- What the conversions and overloads of an integer type have in common. -/
class LawfulFieldInteger (α : Type) [FieldInteger α] : Prop where
  ofBits_toBits : ∀ value : α, FieldInteger.ofBits (FieldInteger.toBits value) = value
  toBits_lt : ∀ value : α, (FieldInteger.toBits value).toNat < 256 ^ FieldInteger.size α
  size_cases : FieldInteger.size α = 4 ∨ FieldInteger.size α = 8
  type_store : ∀ (field : Field) (value : α), (FieldInteger.store field value).type = field.type
  value_load : ∀ field : Field, field.type = FieldInteger.fieldType α →
    field.value = .integer (FieldInteger.toBits (FieldInteger.load field : α))
  load_store : ∀ (field : Field) (value : α),
    FieldInteger.load (FieldInteger.store field value) = value

instance : LawfulFieldInteger Int64 where
  ofBits_toBits _ := rfl
  toBits_lt value := (FieldInteger.toBits value).toNat_lt
  size_cases := Or.inr rfl
  type_store _ _ := rfl
  value_load field same := by simp_all [Field.value, FieldInteger.fieldType, FieldInteger.toBits,
    FieldInteger.load]
  load_store _ _ := rfl

instance : LawfulFieldInteger UInt64 where
  ofBits_toBits _ := rfl
  toBits_lt value := (FieldInteger.toBits value).toNat_lt
  size_cases := Or.inr rfl
  type_store _ _ := rfl
  value_load field same := by simp_all [Field.value, FieldInteger.fieldType, FieldInteger.toBits,
    FieldInteger.load]
  load_store _ _ := rfl

instance : LawfulFieldInteger UInt32 where
  ofBits_toBits value := by simp [FieldInteger.ofBits, FieldInteger.toBits]
  toBits_lt value := by
    simpa [FieldInteger.toBits, FieldInteger.size] using value.toNat_lt
  size_cases := Or.inl rfl
  type_store _ _ := rfl
  value_load field same := by simp_all [Field.value, FieldInteger.fieldType, FieldInteger.toBits,
    FieldInteger.load]
  load_store field value := by simp [FieldInteger.load, FieldInteger.store]

namespace Field

variable {α : Type} [FieldInteger α]

/-- `getValue(intType&)`: an overload of another type leaves the variable as it was. -/
def getInteger (field : Field) (variable_ : α) : α :=
  if field.type = FieldInteger.fieldType α then FieldInteger.load field else variable_

/-- `setValue(intType)`: an overload of another type does nothing. -/
def setInteger (field : Field) (value : α) : Field :=
  if field.type = FieldInteger.fieldType α then FieldInteger.store field value else field

variable [LawfulFieldInteger α]

@[simp] theorem type_setInteger (field : Field) (value : α) :
    (field.setInteger value).type = field.type := by
  unfold setInteger
  split
  · exact LawfulFieldInteger.type_store field value
  · rfl

theorem value_getInteger {field : Field} (same : field.type = FieldInteger.fieldType α)
    (variable_ : α) :
    field.value = .integer (FieldInteger.toBits (field.getInteger variable_)) := by
  rw [getInteger, if_pos same]
  exact LawfulFieldInteger.value_load field same

theorem value_setInteger {field : Field} (same : field.type = FieldInteger.fieldType α)
    (value : α) : (field.setInteger value).value = .integer (FieldInteger.toBits value) := by
  have stored : (field.setInteger value).type = FieldInteger.fieldType α := by
    rw [type_setInteger, same]
  rw [LawfulFieldInteger.value_load (α := α) _ stored, setInteger, if_pos same,
    LawfulFieldInteger.load_store]

end Field

/-! ## Messages -/

/-- The members of `Message` that are read. -/
structure Message where
  /-- `index_` -/
  index : UInt64
  /-- `fieldCount_` -/
  fieldCount : UInt16
  /-- `fields_` -/
  fields : List Field
  deriving DecidableEq

namespace Message

/-- A message as constructed. -/
def new : Message := ⟨0, 0, []⟩

/-- `addField` -/
def addField (message : Message) (field : Field) : Message :=
  { message with
    fields := message.fields ++ [field]
    fieldCount := message.fieldCount + 1 }

/-- `reset` -/
def reset (message : Message) : Message where
  index := 0
  fieldCount := UInt16.ofNat message.fields.length
  fields := (message.fields.take message.fieldCount.toNat).map Field.reset ++
    message.fields.drop message.fieldCount.toNat

/-- `getField`: the field behind the returned pointer, `none` for a null pointer. -/
def getField (message : Message) (index : UInt16) : Option Field :=
  if index ≥ message.fieldCount then none else message.fields[index.toNat]?

/-- Write through the pointer that `getField` returns. -/
def modifyField (message : Message) (index : UInt16) (change : Field → Field) : Option Message :=
  (message.getField index).map fun field =>
    { message with fields := message.fields.set index.toNat (change field) }

/-- `setIndex` -/
def setIndex (message : Message) (index : UInt64) : Message := { message with index := index }

/-- The types of a message's fields. -/
def types (message : Message) : List FieldType := message.fields.map Field.type

/-- The values of a message's fields. -/
def values (message : Message) : List FieldValue := message.fields.map Field.value

/-- The field count is exact. -/
def Counted (message : Message) : Prop := message.fieldCount.toNat = message.fields.length

@[simp] theorem types_setIndex (message : Message) (index : UInt64) :
    (message.setIndex index).types = message.types := rfl

@[simp] theorem types_reset (message : Message) : message.reset.types = message.types := by
  simp only [types, reset, List.map_append, List.map_map, Function.comp_def, Field.type_reset]
  rw [← List.map_append, List.take_append_drop]

end Message

end FlashForwarder
