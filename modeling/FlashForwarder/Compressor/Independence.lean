import FlashForwarder.Compressor.RoundTrip
import FlashForwarder.Library.Interleaving
import Mathlib.Data.List.Nodup

/-!
# Encoding one instrument is independent of the others

The tokens of a template share its presence map, its snapshot array and its index space.  A context
is nevertheless a family of machines, one for each template and token, each with one snapshot: what
it appends for a token depends on the token's own messages and on its place alone.
-/

namespace FlashForwarder

open WireFormat FieldInstruction Interleaving

/-! ## What is appended does not depend on the buffer -/

/-- Every instruction finds a field of its own type. -/
def Message.Matches (instructions : List FieldInstruction) (message : Message) : Prop :=
  ∀ instruction ∈ instructions, ∃ field : Field,
    message.getField instruction.index = some field ∧ field.type = instruction.fieldType

theorem Message.getField_setField {message : Message} {index : UInt16} {field : Field}
    (found : message.getField index = some field) (updated : Field) (other : UInt16) :
    (message.setField index updated).getField other =
      if index = other then some updated else message.getField other := by
  have here := found
  unfold getField at here
  split at here
  · simp at here
  · rename_i inside
    by_cases same : index = other
    · subst same
      have bound := (List.getElem?_eq_some_iff.mp here).1
      rw [if_pos rfl, getField, setField, if_neg inside]
      exact List.getElem?_set_self bound
    · have apart : index.toNat ≠ other.toNat := fun equal => same (UInt16.toNat_inj.mp equal)
      rw [if_neg same, getField, getField, setField, List.getElem?_set_ne apart]

/-- Storing a value of the same type keeps the types that the instructions find. -/
theorem Message.Matches.setField {instructions : List FieldInstruction} {message : Message}
    (matched : message.Matches instructions) {index : UInt16} {field updated : Field}
    (found : message.getField index = some field) (sameType : updated.type = field.type) :
    (message.setField index updated).Matches instructions := by
  intro instruction member
  obtain ⟨old, oldFound, oldType⟩ := matched instruction member
  rw [getField_setField found]
  by_cases same : index = instruction.index
  · subst same
    rw [found, Option.some_inj] at oldFound
    exact ⟨updated, if_pos rfl, sameType.trans (oldFound ▸ oldType)⟩
  · exact ⟨old, by rw [if_neg same, oldFound], oldType⟩

theorem Message.Writable.of_getField {message : Message} (writable : message.Writable)
    {index : UInt16} {field : Field} (found : message.getField index = some field) :
    field.value.Writable := by
  unfold getField at found
  split at found
  · simp at found
  · exact writable field (List.mem_of_getElem? found)

/-- An integer instruction appends to any buffer the same bytes. -/
theorem FieldInstructionInteger.encode_append {α : Type} [FieldInteger α] [DecidableEq α]
    [LawfulFieldInteger α] (instruction : FieldInstructionInteger α)
    {message cacheMessage : Message} {field cacheField : Field}
    (found : message.getField instruction.index = some field)
    (cached : cacheMessage.getField instruction.index = some cacheField) (pMap : UInt32) :
    ∃ (updated : Field) (bytes : List UInt8) (pMap' : UInt32),
      updated.type = cacheField.type ∧ ∀ buffer,
        instruction.encode message ⟨cacheMessage, buffer, pMap⟩ = some
          ⟨cacheMessage.setField instruction.index updated, buffer ++ bytes, pMap'⟩ := by
  have changed := Message.modifyField_of_getField cached
    (·.setInteger (field.getInteger (FieldInteger.ofBits (α := α) 0)))
  have type := Field.type_setInteger cacheField
    (field.getInteger (FieldInteger.ofBits (α := α) 0))
  cases kind : instruction.type with
  | copy =>
      by_cases same : field.getInteger (FieldInteger.ofBits (α := α) 0) =
          cacheField.getInteger (FieldInteger.ofBits 0)
      · refine ⟨cacheField, [], pMap, rfl, fun buffer => ?_⟩
        simp [encode, found, cached, kind, same, Message.setField_self cached]
      · refine ⟨_, instruction.write (field.getInteger (FieldInteger.ofBits 0)),
          setpMap pMap instruction.index, type, fun buffer => ?_⟩
        simp [encode, found, cached, kind, same, changed]
  | delta =>
      refine ⟨_, writeSignedVarint64 (difference (α := α)
        (field.getInteger (FieldInteger.ofBits 0)) (cacheField.getInteger (FieldInteger.ofBits 0))),
        setpMap pMap instruction.index, type, fun buffer => ?_⟩
      simp [encode, found, cached, kind, changed]

/-- A string instruction appends to any buffer the same bytes. -/
theorem FieldInstructionString.encode_append (instruction : FieldInstructionString)
    {message cacheMessage : Message} {field cacheField : Field}
    (writable : Writable field.getString)
    (found : message.getField instruction.index = some field)
    (cached : cacheMessage.getField instruction.index = some cacheField) (pMap : UInt32) :
    ∃ (updated : Field) (bytes : List UInt8) (pMap' : UInt32),
      updated.type = cacheField.type ∧ ∀ buffer,
        instruction.encode message ⟨cacheMessage, buffer, pMap⟩ = some
          ⟨cacheMessage.setField instruction.index updated, buffer ++ bytes, pMap'⟩ := by
  have changed := Message.modifyField_of_getField cached (·.setString field.getString)
  have type := Field.type_setString cacheField field.getString
  have unchanged : ∃ (updated : Field) (bytes : List UInt8) (pMap' : UInt32),
      updated.type = cacheField.type ∧ ∀ buffer : List UInt8,
        some (⟨cacheMessage, buffer, pMap⟩ : Encoding) = some
          ⟨cacheMessage.setField instruction.index updated, buffer ++ bytes, pMap'⟩ :=
    ⟨cacheField, [], pMap, rfl, fun buffer => by simp [Message.setField_self cached]⟩
  cases kind : instruction.type with
  | copy =>
      by_cases same : field.getString = cacheField.getString
      · simpa [encode, found, cached, kind, same] using unchanged
      · refine ⟨_, stringBytes field.getString, setpMap pMap instruction.index, type,
          fun buffer => ?_⟩
        simp [encode, found, cached, kind, same, changed, writeString, writable]
  | delta => simpa [encode, found, cached, kind] using unchanged

theorem FieldInstruction.encode_append (instruction : FieldInstruction)
    {message cacheMessage : Message} {field cacheField : Field}
    (typed : field.type = instruction.fieldType) (writable : field.value.Writable)
    (found : message.getField instruction.index = some field)
    (cached : cacheMessage.getField instruction.index = some cacheField) (pMap : UInt32) :
    ∃ (updated : Field) (bytes : List UInt8) (pMap' : UInt32),
      updated.type = cacheField.type ∧ ∀ buffer,
        instruction.encode message ⟨cacheMessage, buffer, pMap⟩ = some
          ⟨cacheMessage.setField instruction.index updated, buffer ++ bytes, pMap'⟩ := by
  cases instruction with
  | int64 instruction => exact instruction.encode_append found cached pMap
  | uint64 instruction => exact instruction.encode_append found cached pMap
  | uint32 instruction => exact instruction.encode_append found cached pMap
  | string instruction =>
      rw [Field.getString_of_string typed] at writable
      exact instruction.encode_append writable found cached pMap

theorem FieldInstructionInteger.encodeFull_append {α : Type} [FieldInteger α]
    (instruction : FieldInstructionInteger α) {message : Message} {field : Field}
    (found : message.getField instruction.index = some field) :
    ∃ bytes : List UInt8, ∀ buffer,
      instruction.encodeFull message buffer = some (buffer ++ bytes) :=
  ⟨hostBytes (FieldInteger.size α)
    (FieldInteger.toBits (field.getInteger (FieldInteger.ofBits (α := α) 0))),
    fun buffer => by simp [encodeFull, found]⟩

theorem FieldInstruction.encodeFull_append (instruction : FieldInstruction) {message : Message}
    {field : Field} (typed : field.type = instruction.fieldType) (writable : field.value.Writable)
    (found : message.getField instruction.index = some field) :
    ∃ bytes : List UInt8, ∀ buffer,
      instruction.encodeFull message buffer = some (buffer ++ bytes) := by
  cases instruction with
  | int64 instruction => exact instruction.encodeFull_append found
  | uint64 instruction => exact instruction.encodeFull_append found
  | uint32 instruction => exact instruction.encodeFull_append found
  | string instruction =>
      rw [Field.getString_of_string typed] at writable
      have small : FlashForwarder.Writable field.getString := writable
      exact ⟨stringBytes field.getString, fun buffer => by
        simp [encodeFull, FieldInstructionString.encodeFull, writeString, small,
          show message.getField instruction.index = _ from found]⟩

/-- The instructions append to any buffer the same bytes and leave the same snapshot. -/
theorem encodeFields_append {all instructions : List FieldInstruction}
    (part : ∀ instruction ∈ instructions, instruction ∈ all) {message cacheMessage : Message}
    (matched : message.Matches all) (writable : message.Writable)
    (cached : cacheMessage.Matches all) (pMap : UInt32) :
    ∃ (updated : Message) (bytes : List UInt8) (pMap' : UInt32), updated.Matches all ∧
      ∀ buffer, instructions.foldlM (fun state instruction => instruction.encode message state)
        ⟨cacheMessage, buffer, pMap⟩ = some ⟨updated, buffer ++ bytes, pMap'⟩ := by
  induction instructions generalizing cacheMessage pMap with
  | nil => exact ⟨cacheMessage, [], pMap, cached, fun buffer => by simp⟩
  | cons instruction instructions ih =>
      obtain ⟨field, found, typed⟩ := matched instruction (part _ (by simp))
      obtain ⟨cacheField, cacheFound, _⟩ := cached instruction (part _ (by simp))
      obtain ⟨stored, bytes, pMap', type, here⟩ :=
        instruction.encode_append typed (writable.of_getField found) found cacheFound pMap
      obtain ⟨updated, rest, final, updatedMatches, later⟩ :=
        ih (fun other member => part other (by simp [member])) (cached.setField cacheFound type)
          pMap'
      refine ⟨updated, bytes ++ rest, final, updatedMatches, fun buffer => ?_⟩
      rw [List.foldlM_cons, here, Option.bind_eq_bind, Option.bind_some, later, List.append_assoc]

theorem encodeFullFields_append {all instructions : List FieldInstruction}
    (part : ∀ instruction ∈ instructions, instruction ∈ all) {message : Message}
    (matched : message.Matches all) (writable : message.Writable) :
    ∃ bytes : List UInt8, ∀ buffer,
      instructions.foldlM (fun buffer instruction => instruction.encodeFull message buffer)
        buffer = some (buffer ++ bytes) := by
  induction instructions with
  | nil => exact ⟨[], fun buffer => by simp⟩
  | cons instruction instructions ih =>
      obtain ⟨field, found, typed⟩ := matched instruction (part _ (by simp))
      obtain ⟨bytes, here⟩ :=
        instruction.encodeFull_append typed (writable.of_getField found) found
      obtain ⟨rest, later⟩ := ih fun other member => part other (by simp [member])
      refine ⟨bytes ++ rest, fun buffer => ?_⟩
      rw [List.foldlM_cons, here, Option.bind_eq_bind, Option.bind_some, later, List.append_assoc]

namespace Template

/-- A message encoded against a snapshot is appended as it would be to an empty buffer. -/
theorem encode_append {template : Template} {message cacheMessage : Message}
    (matched : message.Matches template.instructions) (writable : message.Writable)
    (cached : cacheMessage.Matches template.instructions) :
    ∃ (updated : Message) (bytes : List UInt8), updated.Matches template.instructions ∧
      ∀ buffer, buffer.length + 15 < 2147483648 →
        template.encode message cacheMessage buffer = some (updated, buffer ++ bytes) := by
  obtain ⟨updated, bytes, pMap, updatedMatches, loop⟩ :=
    encodeFields_append (fun _ member => member) matched writable cached 0
  refine ⟨updated, template.header cacheMessage.index ++ (hostUint32 pMap ++ bytes),
    updatedMatches, fun buffer room => ?_⟩
  have small : (buffer ++ template.header cacheMessage.index).length < 2147483648 := by
    have := template.length_header cacheMessage.index
    rw [List.length_append]
    omega
  rw [encode, loop, Option.bind_eq_bind, Option.bind_some, storePMap_append small,
    Option.bind_eq_bind, Option.bind_some,
    ← List.append_assoc buffer (template.header cacheMessage.index)]
  rfl

/-- A message encoded in full is appended as it would be to an empty buffer. -/
theorem encodeFull_append {template : Template} {message : Message}
    (matched : message.Matches template.instructions) (writable : message.Writable) :
    ∃ bytes : List UInt8, ∀ buffer, buffer.length + 15 < 2147483648 →
      template.encodeFull message buffer = some (buffer ++ bytes) := by
  obtain ⟨bytes, loop⟩ := encodeFullFields_append (fun _ member => member) matched writable
  refine ⟨template.header message.index ++ (hostUint32 fullMap ++ bytes), fun buffer room => ?_⟩
  have small : (buffer ++ template.header message.index).length < 2147483648 := by
    have := template.length_header message.index
    rw [List.length_append]
    omega
  rw [encodeFull, loop, Option.bind_eq_bind, Option.bind_some, storePMap_append small,
    List.append_assoc]

end Template

/-! ## One machine for each template and token -/

/-- A template and a token. -/
abbrev TokenKey := UInt32 × List UInt8

/-- A call and what its buffer holds before it. -/
structure BufferedCall extends Call where
  /-- `buffer` -/
  buffer : List UInt8

/-- The template and the token of a call. -/
def Call.key (call : Call) : TokenKey := (call.templateID, call.token)

/-- What one template and token make of a message, if the token's place is `place`: a message in
full if it is the first one, and a difference from the snapshot otherwise. -/
def keyStep (templates : Templates) (place : TokenKey → Nat) (key : TokenKey)
    (snapshot : Option Message) (message : Message) : Option (Option Message × List UInt8) :=
  match templates.getTemplate key.1 with
  | none => some (snapshot, [])
  | some tmp =>
      match snapshot with
      | none =>
          (tmp.encodeFull (message.setIndex (UInt64.ofNat (place key))) []).map fun bytes =>
            (some (message.setIndex (UInt64.ofNat (place key))), bytes)
      | some cacheMessage =>
          (tmp.encode message cacheMessage []).map fun result => (some result.1, result.2)

/-- The place of a token among those of its template. -/
def placeIn (calls : List Call) (key : TokenKey) : Nat := (tokensSeen calls key.1).idxOf key.2

/-- A context's tables are those of the machines of its tokens. -/
structure Shares (added : List Template) (history : List Call)
    (snapshots : TokenKey → Option Message) (encoder : Context) : Prop where
  /-- The set of templates is as it was. -/
  templates : encoder.templates = Templates.ofList added
  /-- Tokens have their places in order of first appearance. -/
  maps : ∀ id tmp, (Templates.ofList added).getTemplate id = some tmp →
    encoder.templateCacheMaps[tmp.index.toNat]? = some (tokensSeen history id).zipIdx
  /-- The snapshots lie at the places of their tokens. -/
  arrays : ∀ id tmp, (Templates.ofList added).getTemplate id = some tmp →
    encoder.templateCacheArrays[tmp.index.toNat]? =
      some ((tokensSeen history id).map fun token => snapshots (id, token))
  /-- The tokens that were seen are those with a snapshot. -/
  entered : ∀ id tmp, (Templates.ofList added).getTemplate id = some tmp → ∀ token,
    token ∈ tokensSeen history id ↔ (snapshots (id, token)).isSome
  /-- A snapshot has the fields of its template. -/
  matched : ∀ id tmp, (Templates.ofList added).getTemplate id = some tmp →
    ∀ token snapshot, snapshots (id, token) = some snapshot → snapshot.Matches tmp.instructions

/-- The message of a call has the fields that the instructions of its template read. -/
def Call.Matches (added : List Template) (call : Call) : Prop :=
  ∀ tmp, (Templates.ofList added).getTemplate call.templateID = some tmp →
    call.message.Matches tmp.instructions

/-- Encode successive messages, each into its own buffer. -/
def encodeEach (context : Context) : List BufferedCall → Option (Context × List (List UInt8))
  | [] => some (context, [])
  | call :: calls => do
      let (context, output) ←
        context.encode call.message call.templateID call.token call.buffer
      let (context, outputs) ← encodeEach context calls
      return (context, output :: outputs)

namespace Shares

variable {added : List Template} {history : List Call} {snapshots : TokenKey → Option Message}
  {encoder : Context} {call : Call}

theorem fresh (few : added.length ≤ 255) :
    Shares added [] (fun _ => none) (Context.new (Templates.ofList added)) where
  templates := rfl
  maps id tmp found := by simp [Context.new, Templates.index_lt_count few found, tokensSeen]
  arrays id tmp found := by simp [Context.new, Templates.index_lt_count few found, tokensSeen]
  entered := by simp [tokensSeen]
  matched := by simp

/-- The tables of the call's template change, the others do not. -/
theorem replace (few : added.length ≤ 255) (shares : Shares added history snapshots encoder)
    {tmp : Template} (found : (Templates.ofList added).getTemplate call.templateID = some tmp)
    (maps : List SnapShotCacheMap) {snapshot : Message}
    (map_eq : maps[tmp.index.toNat]? =
      some (tokensSeen (history ++ [call]) call.templateID).zipIdx)
    (others : ∀ slot, slot ≠ tmp.index.toNat → maps[slot]? = encoder.templateCacheMaps[slot]?)
    {array : SnapShotCacheArray}
    (array_eq : array = (tokensSeen (history ++ [call]) call.templateID).map fun token =>
      Function.update snapshots call.key (some snapshot) (call.templateID, token))
    (matched : snapshot.Matches tmp.instructions) :
    Shares added (history ++ [call]) (Function.update snapshots call.key (some snapshot))
      ⟨encoder.templates, maps, encoder.templateCacheArrays.set tmp.index.toNat array⟩ := by
  have apart : ∀ id, call.templateID ≠ id → ∀ token,
      Function.update snapshots call.key (some snapshot) (id, token) = snapshots (id, token) :=
    fun id differ token => Function.update_of_ne
      (fun same => differ (congrArg Prod.fst same).symm) _ _
  have sameTokens : ∀ id, call.templateID ≠ id →
      tokensSeen (history ++ [call]) id = tokensSeen history id := fun id differ => by
    simp [tokensSeen_concat, enterToken, differ]
  refine ⟨shares.templates, ?_, ?_, ?_, ?_⟩
  · intro id tmp' found'
    by_cases same : call.templateID = id
    · subst same
      rw [found, Option.some_inj] at found'
      rw [← found', map_eq]
    · rw [others _ (Ne.symm (index_ne_of_ne few found found' same)), sameTokens id same]
      exact shares.maps id tmp' found'
  · intro id tmp' found'
    by_cases same : call.templateID = id
    · subst same
      rw [found, Option.some_inj] at found'
      subst found'
      rw [List.getElem?_set_self
        (List.getElem?_eq_some_iff.mp (shares.arrays _ _ found)).1, array_eq]
    · rw [List.getElem?_set_ne (index_ne_of_ne few found found' same), sameTokens id same]
      simp only [apart id same]
      exact shares.arrays id tmp' found'
  · intro id tmp' found' token
    by_cases same : call.templateID = id
    · subst same
      have before := shares.entered _ _ found' token
      by_cases here : token = call.token
      · subst here
        simp [tokensSeen_concat, enterToken, Call.key]
        split <;> simp_all
      · have other : (call.templateID, token) ≠ call.key := fun equal =>
          here (congrArg Prod.snd equal)
        rw [Function.update_of_ne other, ← before, tokensSeen_concat, enterToken]
        split <;> simp [here]
    · rw [apart id same, sameTokens id same]
      exact shares.entered id tmp' found' token
  · intro id tmp' found' token held isHeld
    by_cases here : (id, token) = call.key
    · obtain ⟨rfl, rfl⟩ := Prod.mk.inj here
      rw [found, Option.some_inj] at found'
      rw [here, Function.update_self, Option.some_inj] at isHeld
      rw [← found', ← isHeld]
      exact matched
    · rw [Function.update_of_ne here] at isHeld
      exact shares.matched id tmp' found' token held isHeld

/-- What a call does for its token's machine: it appends bytes that do not depend on the buffer. -/
def Answers (added : List Template) (history : List Call) (snapshots : TokenKey → Option Message)
    (encoder : Context) (place : TokenKey → Nat) (call : Call) (buffer : List UInt8) : Prop :=
  ∃ (next : Option Message) (bytes : List UInt8) (encoder' : Context),
    encoder.encode call.message call.templateID call.token buffer =
        some (encoder', buffer ++ bytes) ∧
      keyStep (Templates.ofList added) place call.key (snapshots call.key) call.message =
        some (next, bytes) ∧
      Shares added (history ++ [call]) (Function.update snapshots call.key next) encoder'

theorem skip (shares : Shares added history snapshots encoder)
    (unknown : (Templates.ofList added).getTemplate call.templateID = none)
    (place : TokenKey → Nat) (buffer : List UInt8) :
    Answers added history snapshots encoder place call buffer := by
  have others : ∀ id tmp, (Templates.ofList added).getTemplate id = some tmp →
      tokensSeen (history ++ [call]) id = tokensSeen history id := by
    intro id tmp known
    rw [tokensSeen_concat, enterToken, if_neg]
    rintro ⟨rfl, _⟩
    simp [unknown] at known
  refine ⟨snapshots call.key, [], encoder, ?_, ?_, ?_⟩
  · simp [Context.encode, shares.templates, unknown]
  · simp [keyStep, Call.key, unknown]
  · rw [Function.update_eq_self]
    refine ⟨shares.templates, ?_, ?_, ?_, shares.matched⟩
    · intro id tmp known
      rw [others id tmp known, shares.maps id tmp known]
    · intro id tmp known
      rw [others id tmp known, shares.arrays id tmp known]
    · intro id tmp known
      rw [others id tmp known]
      exact shares.entered id tmp known

/-- A call for a token with a snapshot encodes the difference. -/
theorem renew (few : added.length ≤ 255) (shares : Shares added history snapshots encoder)
    {tmp : Template} (found : (Templates.ofList added).getTemplate call.templateID = some tmp)
    (matched : call.message.Matches tmp.instructions) (writable : call.message.Writable)
    {cacheMessage : Message} (held : snapshots call.key = some cacheMessage)
    (place : TokenKey → Nat) {buffer : List UInt8} (room : buffer.length + 15 < 2147483648) :
    Answers added history snapshots encoder place call buffer := by
  have maps := shares.maps _ _ found
  have arrays := shares.arrays _ _ found
  have seen : call.token ∈ tokensSeen history call.templateID := by
    rw [shares.entered _ _ found, show (call.templateID, call.token) = call.key from rfl, held]
    rfl
  have same : tokensSeen (history ++ [call]) call.templateID =
      tokensSeen history call.templateID := by
    simp [tokensSeen_concat, enterToken, seen]
  have lookup := lookup_zipIdx (tokensSeen history call.templateID) call.token 0
  rw [if_pos seen, Nat.zero_add] at lookup
  have stored : ((tokensSeen history call.templateID).map fun token =>
      snapshots (call.templateID, token))[(tokensSeen history call.templateID).idxOf
        call.token]? = some (some cacheMessage) := by
    rw [List.getElem?_map, List.getElem?_idxOf seen, Option.map_some]
    exact congrArg some held
  obtain ⟨updated, bytes, updatedMatches, append⟩ := Template.encode_append matched writable
    (shares.matched _ _ found call.token cacheMessage held)
  have moved := List.Nodup.map_update (nodup_tokensSeen history call.templateID)
    (fun token => snapshots (call.templateID, token)) call.token (some updated)
  rw [if_pos seen] at moved
  refine ⟨some updated, bytes, _, ?_, ?_, shares.replace few found
    encoder.templateCacheMaps (by rw [same, maps]) (fun _ _ => rfl) rfl updatedMatches⟩
  · have array : (tokensSeen (history ++ [call]) call.templateID).map (fun token =>
        Function.update snapshots call.key (some updated) (call.templateID, token)) =
        ((tokensSeen history call.templateID).map fun token =>
          snapshots (call.templateID, token)).set
            ((tokensSeen history call.templateID).idxOf call.token) (some updated) := by
      rw [same]
      refine (List.map_congr_left fun token _ => ?_).trans (moved.trans ?_)
      · by_cases here : token = call.token <;> simp [here, Call.key]
      · congr 2
        exact lawful_beq_subsingleton _ _
    simp [-List.getElem?_map, Context.encode, shares.templates, found, maps, arrays, lookup,
      stored, append buffer room, array]
  · simp [keyStep, held, show call.key.1 = call.templateID from rfl, found, append [] (by simp)]

theorem enter (few : added.length ≤ 255) (shares : Shares added history snapshots encoder)
    {tmp : Template} (found : (Templates.ofList added).getTemplate call.templateID = some tmp)
    (matched : call.message.Matches tmp.instructions) (writable : call.message.Writable)
    (unheld : snapshots call.key = none) {place : TokenKey → Nat}
    (placed : place call.key = placeIn (history ++ [call]) call.key)
    {buffer : List UInt8} (room : buffer.length + 15 < 2147483648) :
    Answers added history snapshots encoder place call buffer := by
  have maps := shares.maps _ _ found
  have arrays := shares.arrays _ _ found
  have unseen : call.token ∉ tokensSeen history call.templateID := by
    rw [shares.entered _ _ found, show (call.templateID, call.token) = call.key from rfl, unheld]
    simp
  have grown : tokensSeen (history ++ [call]) call.templateID =
      tokensSeen history call.templateID ++ [call.token] := by
    simp [tokensSeen_concat, enterToken, unseen]
  have position : place call.key = (tokensSeen history call.templateID).length := by
    rw [placed, placeIn, Call.key, grown, List.idxOf_append_of_notMem unseen]
    simp
  have lookup := lookup_zipIdx (tokensSeen history call.templateID) call.token 0
  rw [if_neg unseen] at lookup
  have indexed : (call.message.setIndex (UInt64.ofNat (place call.key))).Matches
      tmp.instructions := matched
  obtain ⟨bytes, append⟩ := Template.encodeFull_append indexed writable
  have bound := (List.getElem?_eq_some_iff.mp maps).1
  refine ⟨some (call.message.setIndex (UInt64.ofNat (place call.key))), bytes, _, ?_, ?_,
    shares.replace few found (encoder.templateCacheMaps.set tmp.index.toNat
      ((tokensSeen history call.templateID).zipIdx ++
        [(call.token, (tokensSeen history call.templateID).length)])) ?_
      (fun slot differ => List.getElem?_set_ne (Ne.symm differ)) rfl indexed⟩
  · have array : (tokensSeen (history ++ [call]) call.templateID).map (fun token =>
        Function.update snapshots call.key
          (some (call.message.setIndex (UInt64.ofNat (place call.key))))
          (call.templateID, token)) =
        ((tokensSeen history call.templateID).map fun token =>
          snapshots (call.templateID, token)) ++
            [some (call.message.setIndex (UInt64.ofNat (place call.key)))] := by
      have others : ∀ token ∈ tokensSeen history call.templateID,
          Function.update snapshots call.key
            (some (call.message.setIndex (UInt64.ofNat (place call.key))))
            (call.templateID, token) = snapshots (call.templateID, token) := by
        intro token member
        refine Function.update_of_ne ?_ _ _
        intro same
        have here : token = call.token := congrArg Prod.snd same
        exact unseen (here ▸ member)
      rw [grown, List.map_append, List.map_congr_left others]
      simp [Call.key]
    rw [position] at append array
    simp [Context.encode, shares.templates, found, maps, arrays, lookup, append buffer room, array,
      position]
  · simp [keyStep, unheld, show call.key.1 = call.templateID from rfl, found, append [] (by simp)]
  · rw [List.getElem?_set_self bound, grown, List.zipIdx_append]
    simp

/-- A call does what the machine of its token does. -/
theorem step (few : added.length ≤ 255) (shares : Shares added history snapshots encoder)
    (matched : call.Matches added) (writable : call.Writable added) {place : TokenKey → Nat}
    (placed : place call.key = placeIn (history ++ [call]) call.key) {buffer : List UInt8}
    (room : buffer.length + 15 < 2147483648) :
    Answers added history snapshots encoder place call buffer := by
  cases found : (Templates.ofList added).getTemplate call.templateID with
  | none => exact shares.skip found place buffer
  | some tmp =>
      cases held : snapshots call.key with
      | some cacheMessage =>
          exact shares.renew few found (matched tmp found) (writable tmp found) held place room
      | none =>
          exact shares.enter few found (matched tmp found) (writable tmp found) held placed room

end Shares

/-! ## Runs -/

theorem mem_tokensSeen_concat (history : List Call) (call : Call) :
    call.token ∈ tokensSeen (history ++ [call]) call.templateID := by
  by_cases seen : call.token ∈ tokensSeen history call.templateID <;>
    simp [tokensSeen_concat, enterToken, seen]

theorem placeIn_append (history later : List Call) (call : Call) :
    placeIn (history ++ call :: later) call.key = placeIn (history ++ [call]) call.key := by
  obtain ⟨rest, longer⟩ := prefix_tokensSeen (history ++ [call]) later call.templateID
  rw [List.append_assoc, List.singleton_append] at longer
  simp only [placeIn, Call.key]
  rw [← longer, List.idxOf_append_of_mem (mem_tokensSeen_concat history call)]

/-- The number of tokens of a key's template that are entered before the key's first call. -/
def tokensBefore (calls : List Call) (key : TokenKey) : Nat :=
  (tokensSeen (calls.takeWhile fun call => call.key ≠ key) key.1).length

/-- A list with a call for a key has a first one. -/
theorem exists_first_call {calls : List Call} {key : TokenKey}
    (called : ∃ call ∈ calls, call.key = key) : ∃ front call back,
      (∀ other ∈ front, other.key ≠ key) ∧ call.key = key ∧ calls = front ++ call :: back := by
  induction calls with
  | nil => simp at called
  | cons first calls ih =>
      by_cases here : first.key = key
      · exact ⟨[], first, calls, by simp, here, rfl⟩
      · obtain ⟨front, call, back, apart, same, split⟩ := ih (by simpa [here] using called)
        exact ⟨first :: front, call, back, by simpa [here] using apart, same, by rw [split]; rfl⟩

theorem not_mem_tokensSeen {calls : List Call} {key : TokenKey}
    (apart : ∀ other ∈ calls, other.key ≠ key) : key.2 ∉ tokensSeen calls key.1 := by
  induction calls using List.reverseRecOn with
  | nil => simp [tokensSeen]
  | append_singleton calls call ih =>
      have earlier := ih fun other member => apart other (by simp [member])
      rw [tokensSeen_concat, enterToken]
      split
      · rename_i entered
        rw [List.mem_append, not_or, List.mem_singleton]
        exact ⟨earlier, fun equal => apart call (by simp) (Prod.ext entered.1 equal.symm)⟩
      · exact earlier

/-- The place of a token is the number of tokens entered before it. -/
theorem placeIn_eq_tokensBefore {calls : List Call} {key : TokenKey}
    (called : ∃ call ∈ calls, call.key = key) : placeIn calls key = tokensBefore calls key := by
  obtain ⟨front, call, back, apart, rfl, split⟩ := exists_first_call called
  have unseen := not_mem_tokensSeen apart
  have taken : (calls.takeWhile fun other => other.key ≠ call.key) = front := by
    rw [split, List.takeWhile_append_of_pos (by simpa using apart)]
    simp
  rw [tokensBefore, taken, split, placeIn_append, placeIn]
  simp only [Call.key, tokensSeen_concat, enterToken] at unseen ⊢
  simp only [unseen, not_false_eq_true, and_self, if_true]
  rw [List.idxOf_append_of_notMem unseen]
  simp

/-- A run of a context is a run of the machines of its tokens. -/
theorem Shares.run {added : List Template} (few : added.length ≤ 255) {calls : List BufferedCall}
    {history : List Call} {snapshots : TokenKey → Option Message} {encoder : Context}
    (shares : Shares added history snapshots encoder)
    (matched : ∀ call ∈ calls, call.Matches added)
    (writable : ∀ call ∈ calls, call.Writable added)
    (room : ∀ call ∈ calls, call.buffer.length + 15 < 2147483648) :
    ∃ encoder' given, given.length = calls.length ∧
      encodeEach encoder calls =
        some (encoder', List.zipWith (fun call bytes => call.buffer ++ bytes) calls given) ∧
      familyAnswers (keyStep (Templates.ofList added)
          (placeIn (history ++ calls.map BufferedCall.toCall))) snapshots
        (calls.map fun call => (call.key, call.message)) = some given := by
  induction calls generalizing history snapshots encoder with
  | nil => exact ⟨encoder, [], rfl, rfl, rfl⟩
  | cons call calls ih =>
      obtain ⟨next, bytes, encoder', encoded, answered, shares⟩ := shares.step few
        (matched call (by simp)) (writable call (by simp))
        (placeIn_append history (calls.map BufferedCall.toCall) call.toCall)
        (room call (by simp))
      obtain ⟨last, given, count, rest, answers⟩ := ih shares
        (fun other member => matched other (by simp [member]))
        (fun other member => writable other (by simp [member]))
        fun other member => room other (by simp [member])
      rw [List.append_assoc, List.singleton_append] at answers
      refine ⟨last, bytes :: given, by simp [count], ?_, ?_⟩
      · simp [encodeEach, encoded, rest]
      · simp [familyAnswers, answered, answers]

/-- The messages of the calls for a template and a token. -/
def messagesFor (key : TokenKey) (calls : List BufferedCall) : List Message :=
  restrict key (calls.map fun call => (call.key, call.message))

/-- What the calls for a template and a token appended to their buffers. -/
def appendedFor (key : TokenKey) (calls : List BufferedCall) (outputs : List (List UInt8)) :
    List (List UInt8) :=
  restrict key (List.zipWith (fun call output => (call.key, output.drop call.buffer.length))
    calls outputs)

/-- Every buffer still begins with what it held before its call. -/
def KeepsBuffers (calls : List BufferedCall) (outputs : List (List UInt8)) : Prop :=
  List.Forall₂ (fun call output => call.buffer <+: output) calls outputs

theorem keepsBuffers_zipWith {calls : List BufferedCall} {given : List (List UInt8)}
    (count : given.length = calls.length) :
    KeepsBuffers calls (List.zipWith (fun call bytes => call.buffer ++ bytes) calls given) := by
  induction calls generalizing given with
  | nil => exact .nil
  | cons call calls ih =>
      obtain _ | ⟨bytes, given⟩ := given
      · simp at count
      exact .cons (List.prefix_append _ _) (ih (by simpa using count))

theorem appendedFor_zipWith (key : TokenKey) (calls : List BufferedCall)
    (given : List (List UInt8)) :
    appendedFor key calls (List.zipWith (fun call bytes => call.buffer ++ bytes) calls given) =
      restrict key (((calls.map fun call => (call.key, call.message)).map Prod.fst).zip given) := by
  rw [appendedFor, List.map_map]
  congr 1
  induction calls generalizing given with
  | nil => rfl
  | cons call calls ih =>
      cases given with
      | nil => rfl
      | cons bytes given => simp [ih]

/-- Only the place of a machine's own token matters to it. -/
theorem keyStep_congr (templates : Templates) {place place' : TokenKey → Nat} {key : TokenKey}
    (same : place key = place' key) :
    keyStep templates place key = keyStep templates place' key := by
  funext snapshot message
  simp only [keyStep, same]

theorem messagesFor_eq_nil_iff {key : TokenKey} {calls : List BufferedCall} :
    messagesFor key calls = [] ↔ ∀ call ∈ calls, call.key ≠ key := by
  simp [messagesFor, restrict, List.filter_eq_nil_iff]

/-- What is appended for a template and a token depends only on its messages and on the number of
tokens that its template saw before it, for strings that can be written and in buffers shorter than
2 GiB. -/
theorem encode_independent {added : List Template} (few : added.length ≤ 255)
    {calls calls' : List BufferedCall} (matched : ∀ call ∈ calls, call.Matches added)
    (matched' : ∀ call ∈ calls', call.Matches added)
    (writable : ∀ call ∈ calls, call.Writable added)
    (writable' : ∀ call ∈ calls', call.Writable added)
    (room : ∀ call ∈ calls, call.buffer.length + 15 < 2147483648)
    (room' : ∀ call ∈ calls', call.buffer.length + 15 < 2147483648) (key : TokenKey)
    (sameMessages : messagesFor key calls = messagesFor key calls')
    (sameBefore : tokensBefore (calls.map BufferedCall.toCall) key =
      tokensBefore (calls'.map BufferedCall.toCall) key) :
    ∃ encoder outputs encoder' outputs',
      encodeEach (Context.new (Templates.ofList added)) calls = some (encoder, outputs) ∧
      encodeEach (Context.new (Templates.ofList added)) calls' = some (encoder', outputs') ∧
      KeepsBuffers calls outputs ∧ KeepsBuffers calls' outputs' ∧
      appendedFor key calls outputs = appendedFor key calls' outputs' := by
  obtain ⟨encoder, given, count, encoded, answered⟩ :=
    (Shares.fresh few).run few matched writable room
  obtain ⟨encoder', given', count', encoded', answered'⟩ :=
    (Shares.fresh few).run few matched' writable' room'
  refine ⟨encoder, _, encoder', _, encoded, encoded', keepsBuffers_zipWith count,
    keepsBuffers_zipWith count', ?_⟩
  rw [appendedFor_zipWith, appendedFor_zipWith]
  by_cases called : ∃ call ∈ calls, call.key = key
  · have called' : ∃ call ∈ calls', call.key = key := by
      by_contra none_
      have silent : messagesFor key calls' = [] := messagesFor_eq_nil_iff.mpr (by simpa using none_)
      rw [← sameMessages, messagesFor_eq_nil_iff] at silent
      obtain ⟨call, member, isKey⟩ := called
      exact silent call member isKey
    have places : placeIn (calls.map BufferedCall.toCall) key =
        placeIn (calls'.map BufferedCall.toCall) key := by
      rw [placeIn_eq_tokensBefore (by simpa using called),
        placeIn_eq_tokensBefore (by simpa using called'), sameBefore]
    exact restrict_eq_restrict answered answered'
      (keyStep_congr (Templates.ofList added) places) rfl sameMessages
  · have silent : messagesFor key calls = [] := messagesFor_eq_nil_iff.mpr (by simpa using called)
    have left := answers_restrict answered key
    have right := answers_restrict answered' key
    rw [show restrict key _ = [] from silent, answers, Option.some_inj] at left
    rw [show restrict key _ = [] from sameMessages.symm.trans silent, answers,
      Option.some_inj] at right
    exact left.symm.trans right

/-- A price encoded for an instrument into a buffer. -/
def instrumentCall (price : Int64) (token buffer : List UInt8) : BufferedCall :=
  ⟨{ priceCall price with token := token }, buffer⟩

theorem matches_instrumentCall (price : Int64) (token buffer : List UInt8) :
    (instrumentCall price token buffer).Matches [priceTemplate] := by
  intro tmp found instruction member
  obtain rfl : priceTemplate.setIndex 0 = tmp := Option.some_inj.mp found
  obtain rfl : instruction = .int64 ⟨.copy, true, false, 0⟩ := by
    simpa [priceTemplate, Template.addInstruction, Template.setMessage, Template.new,
      Template.setIndex, FieldInstruction.setIndex] using member
  exact ⟨_, rfl, rfl⟩

theorem writable_instrumentCall (price : Int64) (token buffer : List UInt8)
    (added : List Template) : (instrumentCall price token buffer).Writable added :=
  writable_priceCall price added

/-- Two prices of one instrument, with and without another instrument between them. -/
theorem encode_independent_prices :
    ∃ encoder outputs encoder' outputs',
      encodeEach (Context.new (Templates.ofList [priceTemplate]))
        [instrumentCall 5 [65] [], instrumentCall 7 [66] [1, 2], instrumentCall 6 [65] [3]] =
          some (encoder, outputs) ∧
      encodeEach (Context.new (Templates.ofList [priceTemplate]))
        [instrumentCall 5 [65] [], instrumentCall 6 [65] []] = some (encoder', outputs') ∧
      KeepsBuffers
        [instrumentCall 5 [65] [], instrumentCall 7 [66] [1, 2], instrumentCall 6 [65] [3]]
        outputs ∧
      KeepsBuffers [instrumentCall 5 [65] [], instrumentCall 6 [65] []] outputs' ∧
      appendedFor (1, [65])
        [instrumentCall 5 [65] [], instrumentCall 7 [66] [1, 2], instrumentCall 6 [65] [3]]
        outputs =
        appendedFor (1, [65]) [instrumentCall 5 [65] [], instrumentCall 6 [65] []] outputs' :=
  encode_independent (by decide) (by simp [matches_instrumentCall])
    (by simp [matches_instrumentCall]) (by simp [writable_instrumentCall])
    (by simp [writable_instrumentCall]) (by simp [instrumentCall]) (by simp [instrumentCall])
    (1, [65]) (by decide) (by decide)

theorem Context.encode_new {added : List Template} (few : added.length ≤ 255) {call : Call}
    {tmp : Template} (found : (Templates.ofList added).getTemplate call.templateID = some tmp)
    {buffer output : List UInt8}
    (encoded : tmp.encodeFull (call.message.setIndex 0) buffer = some output) :
    ∃ encoder, (Context.new (Templates.ofList added)).encode call.message call.templateID
      call.token buffer = some (encoder, output) := by
  have bound := Templates.index_lt_count few found
  simp [Context.encode, Context.new, found, bound, encoded]

/-- The first price of an instrument in full, up to the presence map. -/
def pricePayload (buffer : List UInt8) : List UInt8 :=
  buffer ++ ((priceTemplate.setIndex 0).header 0 ++ [0, 0, 0, 0] ++ hostBytes 8 5)

theorem encodeEach_price {buffer output : List UInt8}
    (stored : Template.storePMap (pricePayload buffer)
      (toInt32 (buffer ++ (priceTemplate.setIndex 0).header 0).length) fullMap = some output) :
    ∃ encoder, encodeEach (Context.new (Templates.ofList [priceTemplate]))
      [instrumentCall 5 [65] buffer] = some (encoder, [output]) := by
  have loop : ∀ buffer, (priceTemplate.setIndex 0).instructions.foldlM
      (fun buffer instruction => instruction.encodeFull ((priceCall 5).message.setIndex 0) buffer)
      buffer = some (buffer ++ hostBytes 8 5) := fun _ => rfl
  have encoded : (priceTemplate.setIndex 0).encodeFull ((priceCall 5).message.setIndex 0) buffer =
      some output := by
    rw [Template.encodeFull, loop, Option.bind_eq_bind, Option.bind_some]
    simp only [pricePayload, ← List.append_assoc] at stored
    exact stored
  have known : (Templates.ofList [priceTemplate]).getTemplate
      (instrumentCall 5 [65] []).templateID = some (priceTemplate.setIndex 0) := rfl
  obtain ⟨encoder, called⟩ := Context.encode_new (by decide) known encoded
  refine ⟨encoder, ?_⟩
  simp only [encodeEach, instrumentCall] at called ⊢
  rw [called]
  rfl

/-- Bytes stored inside the front of a list leave what is behind the front. -/
theorem drop_overwritten {front stored rest : List UInt8} {offset : Nat}
    (inside : offset + stored.length ≤ front.length) :
    ((front ++ rest).take offset ++ stored ++
      (front ++ rest).drop (offset + stored.length)).drop front.length = rest := by
  rw [List.take_append_of_le_length (by omega), List.drop_append_of_le_length inside,
    ← List.append_assoc]
  refine List.drop_left' ?_
  simp only [List.length_append, List.length_take, List.length_drop]
  omega

/-- In a buffer of 4 GiB the position of the presence map wraps to the buffer's start. -/
theorem huge_buffer_not_independent :
    ¬∀ (added : List Template) (calls calls' : List BufferedCall) (key : TokenKey)
        (encoder encoder' : Context) (outputs outputs' : List (List UInt8)),
      added.length ≤ 255 → (∀ call ∈ calls, call.Matches added) →
      (∀ call ∈ calls', call.Matches added) → messagesFor key calls = messagesFor key calls' →
      tokensBefore (calls.map BufferedCall.toCall) key =
        tokensBefore (calls'.map BufferedCall.toCall) key →
      encodeEach (Context.new (Templates.ofList added)) calls = some (encoder, outputs) →
      encodeEach (Context.new (Templates.ofList added)) calls' = some (encoder', outputs') →
      appendedFor key calls outputs = appendedFor key calls' outputs' := by
  intro claimed
  obtain ⟨huge, length⟩ : ∃ huge : List UInt8, huge.length = 2 ^ 32 :=
    ⟨List.replicate (2 ^ 32) 0, List.length_replicate⟩
  have wrapped : toInt32 (huge ++ (priceTemplate.setIndex 0).header 0).length = 2 := by
    rw [List.length_append, length]
    decide
  have inside : (0 : Int) ≤ 2 ∧ (2 : Int).toNat + 4 ≤ (pricePayload huge).length := by
    simp only [pricePayload, List.length_append, length]
    decide
  have stored : Template.storePMap (pricePayload huge) 2 fullMap =
      some ((pricePayload huge).take 2 ++ hostUint32 fullMap ++ (pricePayload huge).drop 6) := by
    rw [Template.storePMap, if_pos inside]
    rfl
  obtain ⟨encoder, encoded⟩ := encodeEach_price (wrapped ▸ stored)
  have stored' : Template.storePMap (pricePayload [])
      (toInt32 ([] ++ (priceTemplate.setIndex 0).header 0).length) fullMap =
        some ((priceTemplate.setIndex 0).header 0 ++ hostUint32 fullMap ++ hostBytes 8 5) := by
    decide
  obtain ⟨encoder', encoded'⟩ := encodeEach_price stored'
  have same := claimed [priceTemplate] _ _ (1, [65]) encoder encoder' _ _ (by decide)
    (by simp [matches_instrumentCall]) (by simp [matches_instrumentCall])
    (by simp [messagesFor, instrumentCall, Call.key])
    (by simp [instrumentCall]) encoded encoded'
  have tail : ((pricePayload huge).take 2 ++ hostUint32 fullMap ++ (pricePayload huge).drop 6).drop
      huge.length = (priceTemplate.setIndex 0).header 0 ++ [0, 0, 0, 0] ++ hostBytes 8 5 := by
    exact drop_overwritten (by rw [length, length_hostUint32]; decide)
  have isKey : ∀ buffer, (instrumentCall 5 [65] buffer).key = (1, [65]) := fun _ => rfl
  have isBuffer : ∀ buffer, (instrumentCall 5 [65] buffer).buffer = buffer := fun _ => rfl
  simp only [appendedFor, List.zipWith_cons_cons, List.zipWith_nil_left, restrict_cons, isKey,
    isBuffer, if_true, restrict_nil, tail, List.cons.injEq] at same
  exact absurd same.1 (by decide)

end FlashForwarder
