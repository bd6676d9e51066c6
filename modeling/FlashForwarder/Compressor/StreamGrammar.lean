import FlashForwarder.Compressor.Context

/-!
# Streams of messages that end inside their buffer

What stands ahead in a buffer, as a grammar.  A judgement gives the bytes behind an item, or
nothing where the decoder gives the item up although all it looked at was there.  Bytes for which
there is no judgement are those in which some item runs over the end, a message stands where more
bytes are left than an `int` can count, or an index is beyond what a table can hold.
-/

namespace FlashForwarder

open WireFormat Varint

/-- A number of at most `limit` bytes ahead: its value and what is behind it. -/
inductive VarintAhead (limit : Nat) : List UInt8 → Option (Nat × List UInt8) → Prop
  /-- It ends within the limit. -/
  | ends {bytes rest : List UInt8} {value : Nat} : IsVarint bytes value → bytes.length ≤ limit →
      VarintAhead limit (bytes ++ rest) (some (value, rest))
  /-- It does not, and the bytes up to the limit are there. -/
  | overlong {bytes rest : List UInt8} : bytes.length = limit →
      (∀ byte ∈ bytes, 128 ≤ byte.toNat) → VarintAhead limit (bytes ++ rest) none

/-- An integer field ahead: what is behind it. -/
inductive IntegerAhead {α : Type} [FieldInteger α] (instruction : FieldInstructionInteger α)
    (pMap : UInt32) : List UInt8 → Option (List UInt8) → Prop
  /-- In full. -/
  | full {bytes rest : List UInt8} : pMap &&& fullMap ≠ 0 → bytes.length = FieldInteger.size α →
      IntegerAhead instruction pMap (bytes ++ rest) (some rest)
  /-- In full, but cut short. -/
  | cutShort {ahead : List UInt8} : pMap &&& fullMap ≠ 0 → ahead.length < FieldInteger.size α →
      IntegerAhead instruction pMap ahead none
  /-- Copied and not sent. -/
  | absent {ahead : List UInt8} : pMap &&& fullMap = 0 → instruction.type = .copy →
      marked pMap instruction.index = false → IntegerAhead instruction pMap ahead (some ahead)
  /-- Copied and sent. -/
  | copied {ahead : List UInt8} {read : Option (Nat × List UInt8)} : pMap &&& fullMap = 0 →
      instruction.type = .copy → marked pMap instruction.index = true →
      VarintAhead (if instruction.shortBits then 5 else 10) ahead read →
      IntegerAhead instruction pMap ahead (read.map Prod.snd)
  /-- A difference. -/
  | delta {ahead : List UInt8} {read : Option (Nat × List UInt8)} : pMap &&& fullMap = 0 →
      instruction.type = .delta → VarintAhead 10 ahead read →
      IntegerAhead instruction pMap ahead (read.map Prod.snd)

/-- A string is sent in full, or because it changed. -/
def FieldInstructionString.sent (instruction : FieldInstructionString) (pMap : UInt32) : Prop :=
  pMap = fullMap ∨ instruction.type = .copy ∧ marked pMap instruction.index = true

/-- A string field ahead: what is behind it. -/
inductive StringAhead (instruction : FieldInstructionString) (pMap : UInt32) :
    List UInt8 → Option (List UInt8) → Prop
  /-- A length and a body. -/
  | body {ahead bytes rest : List UInt8} {length : Nat} : instruction.sent pMap →
      VarintAhead 5 ahead (some (length, bytes ++ rest)) → bytes.length = length % 2 ^ 32 →
      StringAhead instruction pMap ahead (some rest)
  /-- A length that is larger than all that is ahead. -/
  | tooLong {ahead rest : List UInt8} {length : Nat} : instruction.sent pMap →
      VarintAhead 5 ahead (some (length, rest)) → ahead.length < length % 2 ^ 32 →
      StringAhead instruction pMap ahead none
  /-- An overlong length. -/
  | overlong {ahead : List UInt8} : instruction.sent pMap → VarintAhead 5 ahead none →
      StringAhead instruction pMap ahead none
  /-- Not sent. -/
  | absent {ahead : List UInt8} : pMap ≠ fullMap → instruction.type = .copy →
      marked pMap instruction.index = false → StringAhead instruction pMap ahead (some ahead)
  /-- Strings are not sent as differences. -/
  | delta {ahead : List UInt8} : pMap ≠ fullMap → instruction.type = .delta →
      StringAhead instruction pMap ahead none

/-- A field ahead: what is behind it. -/
def FieldInstruction.Ahead (pMap : UInt32) :
    FieldInstruction → List UInt8 → Option (List UInt8) → Prop
  | int64 instruction => IntegerAhead instruction pMap
  | uint64 instruction => IntegerAhead instruction pMap
  | uint32 instruction => IntegerAhead instruction pMap
  | string instruction => StringAhead instruction pMap

/-- The fields of a message ahead: what is behind them. -/
inductive FieldsAhead (pMap : UInt32) :
    List FieldInstruction → List UInt8 → Option (List UInt8) → Prop
  /-- No field is left. -/
  | done {ahead : List UInt8} : FieldsAhead pMap [] ahead (some ahead)
  /-- One field after another. -/
  | next {instruction : FieldInstruction} {instructions : List FieldInstruction}
      {ahead rest : List UInt8} {verdict : Option (List UInt8)} :
      instruction.Ahead pMap ahead (some rest) → FieldsAhead pMap instructions rest verdict →
      FieldsAhead pMap (instruction :: instructions) ahead verdict
  /-- A field that is given up fails the message. -/
  | failed {instruction : FieldInstruction} {instructions : List FieldInstruction}
      {ahead : List UInt8} : instruction.Ahead pMap ahead none →
      FieldsAhead pMap (instruction :: instructions) ahead none

/-- The messages ahead: their number, or nothing where one of them fails. -/
inductive StreamAhead (templates : Templates) : List UInt8 → Option Nat → Prop
  /-- The end of the buffer. -/
  | done : StreamAhead templates [] (some 0)
  /-- An overlong template id ends the stream. -/
  | badId {ahead : List UInt8} : VarintAhead 5 ahead none → StreamAhead templates ahead (some 0)
  /-- An overlong index ends the stream. -/
  | badIndex {ahead rest : List UInt8} {id : Nat} : VarintAhead 5 ahead (some (id, rest)) →
      VarintAhead 10 rest none → StreamAhead templates ahead (some 0)
  /-- An unknown template ends the stream. -/
  | unknown {ahead body rest : List UInt8} {id index : Nat} :
      VarintAhead 5 ahead (some (id, rest)) → VarintAhead 10 rest (some (index, body)) →
      templates.getTemplate (UInt32.ofNat id) = none → StreamAhead templates ahead (some 0)
  /-- A header with nothing behind it fails. -/
  | bare {ahead rest : List UInt8} {id index : Nat} {tmp : Template} :
      VarintAhead 5 ahead (some (id, rest)) → VarintAhead 10 rest (some (index, [])) →
      templates.getTemplate (UInt32.ofNat id) = some tmp →
      (UInt64.ofNat index).toNat < Context.maxSize → StreamAhead templates ahead none
  /-- A message with a field that fails. -/
  | failed {ahead rest map fields : List UInt8} {id index : Nat} {tmp : Template} :
      VarintAhead 5 ahead (some (id, rest)) → VarintAhead 10 rest (some (index, map ++ fields)) →
      templates.getTemplate (UInt32.ofNat id) = some tmp →
      (UInt64.ofNat index).toNat < Context.maxSize → map.length = 4 →
      fields.length < 2147483644 →
      FieldsAhead (getUint32 map.reverse) tmp.instructions fields none →
      StreamAhead templates ahead none
  /-- A message, and what is behind it. -/
  | message {ahead rest map fields later : List UInt8} {id index : Nat} {tmp : Template}
      {count : Option Nat} :
      VarintAhead 5 ahead (some (id, rest)) → VarintAhead 10 rest (some (index, map ++ fields)) →
      templates.getTemplate (UInt32.ofNat id) = some tmp →
      (UInt64.ofNat index).toNat < Context.maxSize → map.length = 4 →
      fields.length < 2147483644 →
      FieldsAhead (getUint32 map.reverse) tmp.instructions fields (some later) →
      StreamAhead templates later count → StreamAhead templates ahead (count.map (· + 1))

end FlashForwarder
