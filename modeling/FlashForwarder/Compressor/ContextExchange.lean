import FlashForwarder.Compressor.Context
import FlashForwarder.Compressor.MessageExchange
import Mathlib.Data.List.Induction

/-!
# One message between two contexts

One pass of `decode` over the bytes of a message, and one call of `encode`, as changes of the
snapshot tables.
-/

namespace FlashForwarder

open WireFormat ProgramLoop

/-! ## Sets of templates -/

namespace Templates

theorem ofList_concat (added : List Template) (last : Template) :
    ofList (added ++ [last]) = (ofList added).addTemplate last := by
  simp [ofList]

theorem index_ofList (added : List Template) : (ofList added).index = UInt8.ofNat added.length := by
  induction added using List.reverseRecOn with
  | nil => rfl
  | append_singleton added last ih =>
      rw [ofList_concat, addTemplate, ih, List.length_append, List.length_singleton,
        UInt8.ofNat_add]
      rfl

/-- What a set finds under an id is the last template that was added with it, in its slot. -/
theorem getTemplate_ofList_iff {added : List Template} {id : UInt32}
    {template : Template} : (ofList added).getTemplate id = some template ↔
      ∃ before original after, added = before ++ original :: after ∧ original.id = id ∧
        (∀ later ∈ after, later.id ≠ id) ∧
        template = original.setIndex (UInt8.ofNat before.length) := by
  induction added using List.reverseRecOn with
  | nil => simp [ofList, new, getTemplate]
  | append_singleton added last ih =>
      simp only [ofList_concat, getTemplate, addTemplate]
      by_cases same : id = last.id
      · rw [if_pos same, index_ofList, Option.some_inj]
        constructor
        · rintro rfl
          exact ⟨added, last, [], rfl, same.symm, by simp, rfl⟩
        · rintro ⟨before, original, after, shape, named, fresh, rfl⟩
          induction after using List.reverseRecOn with
          | nil =>
              obtain ⟨rfl, last_⟩ := List.append_inj' shape rfl
              rw [List.singleton_inj.mp last_]
          | append_singleton after final _ =>
              rw [← List.cons_append, ← List.append_assoc] at shape
              obtain ⟨-, last_⟩ := List.append_inj' shape rfl
              rw [← List.singleton_inj.mp last_] at fresh
              exact absurd same.symm (fresh last (by simp))
      · rw [if_neg same]
        change (ofList added).getTemplate id = some template ↔ _
        rw [ih]
        constructor
        · rintro ⟨before, original, after, rfl, named, fresh, rfl⟩
          refine ⟨before, original, after ++ [last], by simp, named, ?_, rfl⟩
          rintro later member
          rcases List.mem_append.mp member with old | new
          · exact fresh later old
          · rw [List.mem_singleton.mp new]
            exact Ne.symm same
        · rintro ⟨before, original, after, shape, named, fresh, rfl⟩
          induction after using List.reverseRecOn with
          | nil =>
              obtain ⟨-, last_⟩ := List.append_inj' shape rfl
              rw [← List.singleton_inj.mp last_] at named
              exact absurd named.symm same
          | append_singleton after final _ =>
              rw [← List.cons_append, ← List.append_assoc] at shape
              obtain ⟨rfl, -⟩ := List.append_inj' shape rfl
              exact ⟨before, original, after, rfl, named,
                fun later member => fresh later (List.mem_append_left _ member), rfl⟩

/-- A template found in a set is one that was added, with the slot it was given. -/
theorem getTemplate_ofList {added : List Template} {id : UInt32} {template : Template}
    (found : (ofList added).getTemplate id = some template) :
    ∃ (place : Nat) (original : Template), added[place]? = some original ∧
      template = original.setIndex (UInt8.ofNat place) ∧ template.id = id := by
  obtain ⟨before, original, after, rfl, named, -, rfl⟩ := getTemplate_ofList_iff.mp found
  exact ⟨before.length, original, by simp, rfl, named⟩

/-- In a set of at most 255 templates a slot belongs to one template. -/
theorem getTemplate_inj {added : List Template} (few : added.length ≤ 255) {id other : UInt32}
    {template template' : Template} (found : (ofList added).getTemplate id = some template)
    (found' : (ofList added).getTemplate other = some template')
    (same : template.index = template'.index) : template = template' := by
  obtain ⟨place, original, at_, rfl, _⟩ := getTemplate_ofList found
  obtain ⟨place', original', at_', rfl, _⟩ := getTemplate_ofList found'
  have bound := (List.getElem?_eq_some_iff.mp at_).1
  have bound' := (List.getElem?_eq_some_iff.mp at_').1
  have places : place = place' := by
    have values := congrArg UInt8.toNat same
    simp only [Template.setIndex, UInt8.toNat_ofNat'] at values
    omega
  subst places
  rw [at_] at at_'
  rw [Option.some_inj.mp at_']

/-- In a set of at most 255 templates every slot is below the count. -/
theorem index_lt_count {added : List Template} (few : added.length ≤ 255) {id : UInt32}
    {template : Template} (found : (ofList added).getTemplate id = some template) :
    template.index.toNat < (ofList added).getTemplatesCount.toNat := by
  obtain ⟨place, original, at_, rfl, _⟩ := getTemplate_ofList found
  have bound := (List.getElem?_eq_some_iff.mp at_).1
  simp only [Template.setIndex, getTemplatesCount, index_ofList, UInt8.toNat_ofNat']
  omega

theorem wellTyped_of_getTemplate {added : List Template}
    (typed : ∀ template ∈ added, template.WellTyped) {id : UInt32} {template : Template}
    (found : (ofList added).getTemplate id = some template) : template.WellTyped := by
  obtain ⟨place, original, at_, rfl, _⟩ := getTemplate_ofList found
  obtain ⟨few, indexed, sound, default⟩ := typed original (List.mem_of_getElem? at_)
  exact ⟨few, indexed, sound, default⟩

end Templates

/-! ## One pass of `decode` -/

namespace Context

/-- The snapshot that an index selects: an entry of the array, or a new one behind it, with null
pointers up to its place. -/
def Selects (tmp : Template) (array : SnapShotCacheArray) (cacheIndex : UInt64)
    (grown : SnapShotCacheArray) (cacheMessage : Message) : Prop :=
  (grown = array ∧ array[cacheIndex.toNat]? = some (some cacheMessage)) ∨
    (grown = array ++ List.replicate (cacheIndex.toNat - array.length) none ++ [none] ∧
      array.length ≤ cacheIndex.toNat ∧ cacheIndex.toNat < maxSize ∧
      ∃ message, tmp.inputMessage = some message ∧
        cacheMessage = (message.setIndex cacheIndex).reset)

theorem maxSize_lt : maxSize < 2 ^ 64 := by decide

theorem resize_eq_some_iff {array grown : SnapShotCacheArray} {size : UInt64} :
    resize array size = some grown ↔ size.toNat ≤ maxSize ∧
      grown = array.take size.toNat ++ List.replicate (size.toNat - array.length) none := by
  unfold resize
  split <;> simp_all [eq_comm]

/-- The array made longer has null pointers up to the new place and at it. -/
theorem resize_succ {array : SnapShotCacheArray} {cacheIndex : UInt64}
    (beyond : array.length ≤ cacheIndex.toNat) (bounded : cacheIndex.toNat < maxSize) :
    resize array (cacheIndex + 1) =
      some (array ++ List.replicate (cacheIndex.toNat - array.length) none ++ [none]) := by
  have next : (cacheIndex + 1).toNat = cacheIndex.toNat + 1 := by
    have := maxSize_lt
    rw [UInt64.toNat_add]
    exact Nat.mod_eq_of_lt (by simp only [UInt64.toNat_one]; omega)
  rw [resize_eq_some_iff, next, List.take_of_length_le (by omega), List.append_assoc,
    ← List.replicate_succ', Nat.sub_add_comm beyond]
  exact ⟨bounded, rfl⟩

theorem Selects.outcome {tmp : Template} {array grown : SnapShotCacheArray} {cacheIndex : UInt64}
    {cacheMessage : Message} (selects : Selects tmp array cacheIndex grown cacheMessage) :
    (selectSnapshot tmp array cacheIndex).outcome = some (some (grown, cacheMessage)) := by
  rcases selects with ⟨rfl, entry⟩ | ⟨rfl, beyond, bounded, message, isMessage, rfl⟩
  · have inside : ¬cacheIndex.toNat ≥ grown.length := by
      have := (List.getElem?_eq_some_iff.mp entry).1
      omega
    simp [selectSnapshot, inside, entry, Traced.outcome_bind]
  · have inside : cacheIndex.toNat < array.length + (cacheIndex.toNat - array.length + 1) := by
      omega
    simp [selectSnapshot, beyond, resize_succ beyond bounded, isMessage, inside,
      Traced.outcome_bind]

/-- The context after a message, whose snapshot is stored. -/
def store (context : Context) (tmp : Template) (grown : SnapShotCacheArray) (cacheIndex : UInt64)
    (cacheMessage : Message) : Context :=
  { context with
    templateCacheArrays := context.templateCacheArrays.set tmp.index.toNat
      (grown.set cacheIndex.toNat (some cacheMessage)) }

/-- What a message leaves behind, from what its template makes of it. -/
theorem outcome_decodeMessage {memory : Memory} {cursor : Cursor} {tmp : Template}
    {cacheIndex : UInt64} {array grown : SnapShotCacheArray} {cacheMessage : Message}
    {decoded : Template.Decoded}
    (slot : cursor.context.templateCacheArrays[tmp.index.toNat]? = some array)
    (selects : Selects tmp array cacheIndex grown cacheMessage)
    (returned : (tmp.decode memory cursor.begin_ cursor.size cursor.messages cacheMessage).outcome =
      some decoded) :
    (decodeMessage memory cursor tmp cacheIndex).outcome =
      some (if decoded.ret = -1 then
        .leave ⟨[], cursor.context.store tmp grown cacheIndex decoded.cacheMessage⟩
      else
        .again
          { begin_ := cursor.begin_ + decoded.ret
            size := cursor.size - UInt64.ofInt decoded.ret
            messages := decoded.messages
            context := cursor.context.store tmp grown cacheIndex decoded.cacheMessage }) := by
  simp only [decodeMessage, slot, Traced.ofOption_some, Traced.pure_bind, selects.outcome,
    Traced.outcome_bind, Option.bind_some, returned]
  split <;> rfl

/-- One message is decoded against the snapshot its index selects. -/
theorem decodeMessage_spec {tmp : Template} (typed : tmp.WellTyped) {memory : Memory}
    (cursor : Cursor) {cacheIndex : UInt64} {array grown : SnapShotCacheArray}
    {cacheMessage : Message} {pMap : UInt32} {bytes : List UInt8}
    {caches fills' caches' : List FieldValue}
    (slot : cursor.context.templateCacheArrays[tmp.index.toNat]? = some array)
    (selects : Selects tmp array cacheIndex grown cacheMessage)
    (cacheFits : cacheMessage.Fits tmp.instructions) (cacheValues : cacheMessage.values = caches)
    (exchanges : ExchangesAll pMap tmp.instructions bytes (defaults tmp.instructions) caches
      fills' caches')
    (held : memory.Holds cursor.begin_ (hostUint32 pMap ++ bytes))
    (room : 4 + bytes.length ≤ cursor.size.toNat) (small : cursor.size.toNat < 2147483648) :
    ∃ filled updated : Message, filled.Fits tmp.instructions ∧ filled.values = fills' ∧
      updated.Fits tmp.instructions ∧ updated.values = caches' ∧
      (decodeMessage memory cursor tmp cacheIndex).outcome = some (.again
        { begin_ := cursor.begin_ + (4 + bytes.length : Nat)
          size := cursor.size - UInt64.ofInt (4 + bytes.length : Nat)
          messages := cursor.messages ++ [filled]
          context :=
            { cursor.context with
              templateCacheArrays := cursor.context.templateCacheArrays.set tmp.index.toNat
                (grown.set cacheIndex.toNat (some updated)) } }) := by
  obtain ⟨filled, updated, filledFits, filledValues, updatedFits, updatedValues, decoded⟩ :=
    Template.decode_spec typed exchanges held room small cacheFits cacheValues cursor.messages
  refine ⟨filled, updated, filledFits, filledValues, updatedFits, updatedValues, ?_⟩
  rw [outcome_decodeMessage slot selects decoded, if_neg (by simp only; omega)]
  rfl

/-- One pass reads a message behind its template's header. -/
theorem decodePass_spec {tmp : Template} (typed : tmp.WellTyped) {memory : Memory} {end_ : Int}
    {cursor : Cursor} {cacheIndex : UInt64} {array grown : SnapShotCacheArray}
    {cacheMessage : Message} {pMap : UInt32} {bytes : List UInt8}
    {caches fills' caches' : List FieldValue}
    (before : cursor.begin_ ≤ end_)
    (found : cursor.context.templates.getTemplate tmp.id = some tmp)
    (slot : cursor.context.templateCacheArrays[tmp.index.toNat]? = some array)
    (selects : Selects tmp array cacheIndex grown cacheMessage)
    (cacheFits : cacheMessage.Fits tmp.instructions) (cacheValues : cacheMessage.values = caches)
    (exchanges : ExchangesAll pMap tmp.instructions bytes (defaults tmp.instructions) caches
      fills' caches')
    (held : memory.Holds cursor.begin_
      (tmp.header cacheIndex ++ (hostUint32 pMap ++ bytes)))
    (room : (tmp.header cacheIndex ++ (hostUint32 pMap ++ bytes)).length ≤ cursor.size.toNat)
    (small : cursor.size.toNat < 2147483648) :
    ∃ (filled updated : Message) (size : UInt64), filled.Fits tmp.instructions ∧
      filled.values = fills' ∧ updated.Fits tmp.instructions ∧ updated.values = caches' ∧
      size.toNat = cursor.size.toNat -
        (tmp.header cacheIndex ++ (hostUint32 pMap ++ bytes)).length ∧
      (decodePass memory end_ cursor).outcome = some (.again
        { begin_ := cursor.begin_ + (tmp.header cacheIndex ++ (hostUint32 pMap ++ bytes)).length
          size := size
          messages := cursor.messages ++ [filled]
          context :=
            { cursor.context with
              templateCacheArrays := cursor.context.templateCacheArrays.set tmp.index.toNat
                (grown.set cacheIndex.toNat (some updated)) } }) := by
  obtain ⟨headerHeld, bodyHeld⟩ := Memory.holds_append.mp held
  obtain ⟨idHeld, indexHeld⟩ := Memory.holds_append.mp headerHeld
  simp only [Template.header, List.length_append, length_hostUint32] at room bodyHeld
  have left1 := toNat_sub_ofInt cursor.size (n := (writeVarint32 tmp.id).length) (by omega)
  have left2 := toNat_sub_ofInt
    (cursor.size - UInt64.ofInt ((writeVarint32 tmp.id).length : Int))
    (n := (writeVarint64 cacheIndex).length) (by omega)
  have accept1 := refuses_eq_false cursor.size (n := (writeVarint32 tmp.id).length)
    (by omega)
  have accept2 := refuses_eq_false
    (cursor.size - UInt64.ofInt ((writeVarint32 tmp.id).length : Int))
    (n := (writeVarint64 cacheIndex).length) (by omega)
  obtain ⟨filled, updated, filledFits, filledValues, updatedFits, updatedValues, decoded⟩ :=
    decodeMessage_spec typed
      ⟨cursor.begin_ + (writeVarint32 tmp.id).length + (writeVarint64 cacheIndex).length,
        cursor.size - UInt64.ofInt ((writeVarint32 tmp.id).length : Int) -
          UInt64.ofInt ((writeVarint64 cacheIndex).length : Int), cursor.messages, cursor.context⟩
      slot selects cacheFits cacheValues exchanges
      (by simpa [Int.add_assoc] using bodyHeld) (by simp only; omega) (by simp only; omega)
  have total : (tmp.header cacheIndex ++ (hostUint32 pMap ++ bytes)).length =
      (writeVarint32 tmp.id).length + (writeVarint64 cacheIndex).length + (4 + bytes.length) := by
    simp [Template.header, Nat.add_assoc]
  refine ⟨filled, updated,
    cursor.size - UInt64.ofInt ((writeVarint32 tmp.id).length : Int) -
      UInt64.ofInt ((writeVarint64 cacheIndex).length : Int) -
      UInt64.ofInt ((4 + bytes.length : Nat) : Int),
    filledFits, filledValues, updatedFits, updatedValues, ?_, ?_⟩
  · rw [toNat_sub_ofInt _ (by omega), left2, left1, total]
    omega
  · simp only [decodePass, before, if_true, Traced.outcome_bind, readVarint32At_write idHeld,
      readVarint64At_write indexHeld, Option.bind_some, accept1, accept2, Bool.false_eq_true,
      if_false, Traced.outcome_emit, Option.getD_some, found, decoded, total]
    push_cast
    simp only [Int.add_assoc]

end Context

end FlashForwarder
