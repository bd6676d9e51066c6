import FlashForwarder.Compressor.ContextExchange

/-!
# Encoder and decoder in step

The snapshot tables of an encoder and of a decoder fed with its output follow the history of
`encode` calls: the tokens of a template in order of first appearance, and the message last encoded
for each.  Both machines are compared with the history, not with each other.
-/

namespace FlashForwarder

open WireFormat ProgramLoop FieldInstruction

/-- One call of `Context::encode`. -/
structure Call where
  /-- `message` -/
  message : Message
  /-- `templateID` -/
  templateID : UInt32
  /-- `token` -/
  token : List UInt8

/-! ## Histories -/

/-- Enter the token of a call for template `id`. -/
def enterToken (id : UInt32) (tokens : List (List UInt8)) (call : Call) : List (List UInt8) :=
  if call.templateID = id ∧ call.token ∉ tokens then tokens ++ [call.token] else tokens

/-- The tokens that were encoded for a template, in order of first appearance. -/
def tokensSeen (history : List Call) (id : UInt32) : List (List UInt8) :=
  history.foldl (enterToken id) []

/-- The message last encoded for a template and a token. -/
def lastMessage (history : List Call) (id : UInt32) (token : List UInt8) : Option Message :=
  history.foldl
    (fun last call => if call.templateID = id ∧ call.token = token then some call.message else last)
    none

theorem tokensSeen_concat (history : List Call) (call : Call) (id : UInt32) :
    tokensSeen (history ++ [call]) id = enterToken id (tokensSeen history id) call := by
  simp [tokensSeen]

theorem lastMessage_concat (history : List Call) (call : Call) (id : UInt32)
    (token : List UInt8) :
    lastMessage (history ++ [call]) id token =
      if call.templateID = id ∧ call.token = token then some call.message
      else lastMessage history id token := by
  simp [lastMessage]

/-- Tokens are only ever entered behind the earlier ones. -/
theorem prefix_tokensSeen (front back : List Call) (id : UInt32) :
    tokensSeen front id <+: tokensSeen (front ++ back) id := by
  induction back using List.reverseRecOn with
  | nil => simp
  | append_singleton back call ih =>
      rw [← List.append_assoc, tokensSeen_concat, enterToken]
      split
      · exact ih.trans (List.prefix_append _ _)
      · exact ih

theorem nodup_tokensSeen (history : List Call) (id : UInt32) : (tokensSeen history id).Nodup := by
  induction history using List.reverseRecOn with
  | nil => exact List.nodup_nil
  | append_singleton history call ih =>
      rw [tokensSeen_concat, enterToken]
      split
      · rename_i fresh
        exact List.nodup_append.mpr ⟨ih, by simp, by
          rintro token member other single rfl
          rw [List.mem_singleton] at single
          exact fresh.2 (single ▸ member)⟩
      · exact ih

/-- A token that was never seen has no last message. -/
theorem lastMessage_eq_none_iff {history : List Call} {id : UInt32} {token : List UInt8} :
    lastMessage history id token = none ↔ token ∉ tokensSeen history id := by
  induction history using List.reverseRecOn with
  | nil => simp [lastMessage, tokensSeen]
  | append_singleton history call ih =>
      rw [lastMessage_concat, tokensSeen_concat]
      by_cases same : call.templateID = id
      · by_cases here : call.token = token
        · subst here
          by_cases known : call.token ∈ tokensSeen history id <;> simp [enterToken, same, known]
        · by_cases known : call.token ∈ tokensSeen history id <;>
            simp [enterToken, same, here, known, ih, Ne.symm here]
      · simp [enterToken, same, ih]

theorem mem_tokensSeen_of_lastMessage {history : List Call} {id : UInt32} {token : List UInt8}
    {message : Message} (last : lastMessage history id token = some message) :
    token ∈ tokensSeen history id := by
  by_contra unseen
  cases last.symm.trans (lastMessage_eq_none_iff.mpr unseen)

theorem length_tokensSeen_concat (history : List Call) (call : Call) (id : UInt32) :
    (tokensSeen (history ++ [call]) id).length ≤ (tokensSeen history id).length + 1 := by
  rw [tokensSeen_concat, enterToken]
  split <;> simp

theorem length_tokensSeen (history : List Call) (id : UInt32) :
    (tokensSeen history id).length ≤ history.length := by
  induction history using List.reverseRecOn with
  | nil => simp [tokensSeen]
  | append_singleton history call ih =>
      have := length_tokensSeen_concat history call id
      rw [List.length_append, List.length_singleton]
      omega

theorem lookup_zipIdx (tokens : List (List UInt8)) (token : List UInt8) (first : Nat) :
    (tokens.zipIdx first).lookup token =
      if token ∈ tokens then some (first + tokens.idxOf token) else none := by
  induction tokens generalizing first with
  | nil => rfl
  | cons head tokens ih =>
      rw [List.zipIdx_cons, List.lookup_cons]
      by_cases same : token = head
      · simp [same]
      · have other : (token == head) = false := by simpa using same
        rw [other, ih, List.idxOf_cons_ne _ (Ne.symm same)]
        simp [same, Nat.add_comm, Nat.add_left_comm]

/-- The bytes that a call puts on the wire for its template. -/
def wireBytes (tmp : Template) (history : List Call) (call : Call) : List UInt8 :=
  let tokens := tokensSeen history call.templateID
  match lastMessage history call.templateID call.token with
  | none => tmp.full (UInt64.ofNat tokens.length) call.message.values
  | some previous =>
      tmp.wire (UInt64.ofNat (tokens.idxOf call.token)) previous.values call.message.values

/-- The values that a decoder puts out for a message, given the token's last message. -/
def deliveredValues (instructions : List FieldInstruction) (last : Option Message)
    (message : Message) : List FieldValue :=
  match last with
  | none => message.values.map FieldValue.image
  | some previous =>
      deliveredFields instructions (defaults instructions) previous.values message.values

/-! ## Tables that follow a history -/

/-- A snapshot array with one snapshot for each token of a template, each in relation `holds` with
the token's place and its last message. -/
structure Tracks (holds : Nat → Message → Message → Prop) (history : List Call) (id : UInt32)
    (array : SnapShotCacheArray) : Prop where
  /-- There is one snapshot for each token. -/
  length_eq : array.length = (tokensSeen history id).length
  /-- No snapshot is null. -/
  snapshots : ∀ (place : Nat) (token : List UInt8), (tokensSeen history id)[place]? = some token →
    ∃ snapshot message : Message, array[place]? = some (some snapshot) ∧
      lastMessage history id token = some message ∧ holds place snapshot message

/-- An encoder's snapshot holds its place and the message's values, which were written. -/
structure EncoderHolds (tmp : Template) (place : Nat) (snapshot message : Message) : Prop where
  index : snapshot.index = UInt64.ofNat place
  fits : snapshot.Fits tmp.instructions
  messageFits : message.Fits tmp.instructions
  values : snapshot.values = message.values
  writable : message.Writable

/-- A decoder's snapshot holds the message's values as the wire carries them. -/
structure DecoderHolds (tmp : Template) (place : Nat) (snapshot message : Message) : Prop where
  fits : snapshot.Fits tmp.instructions
  messageFits : message.Fits tmp.instructions
  values : snapshot.values = message.values.map FieldValue.image

/-- An encoder after the calls of `history`. -/
structure EncoderFollows (added : List Template) (history : List Call) (encoder : Context) :
    Prop where
  /-- The set of templates is as it was. -/
  templates : encoder.templates = Templates.ofList added
  /-- Tokens have their places in order of first appearance, and snapshots at them. -/
  tables : ∀ id tmp, (Templates.ofList added).getTemplate id = some tmp → ∃ array,
    encoder.templateCacheMaps[tmp.index.toNat]? = some (tokensSeen history id).zipIdx ∧
      encoder.templateCacheArrays[tmp.index.toNat]? = some array ∧
      Tracks (EncoderHolds tmp) history id array

/-- A decoder fed with the output of the calls of `history`. -/
structure DecoderFollows (added : List Template) (history : List Call) (decoder : Context) :
    Prop where
  /-- The set of templates is as it was. -/
  templates : decoder.templates = Templates.ofList added
  /-- Snapshots are at the places of their tokens. -/
  tables : ∀ id tmp, (Templates.ofList added).getTemplate id = some tmp → ∃ array,
    decoder.templateCacheArrays[tmp.index.toNat]? = some array ∧
      Tracks (DecoderHolds tmp) history id array

/-- The array of a decoder that missed the first `missed` tokens of a template: once a later one is
entered, null pointers stand at their places. -/
def padded (missed : Nat) : SnapShotCacheArray → SnapShotCacheArray
  | [] => []
  | entry :: array => List.replicate missed none ++ entry :: array

/-- A decoder that joined after the calls of `past` and was fed with the output of the calls of
`history`, none of which is for a token of `past`. -/
structure LateFollows (added : List Template) (past history : List Call) (decoder : Context) :
    Prop where
  /-- The set of templates is as it was. -/
  templates : decoder.templates = Templates.ofList added
  /-- No token was missed. -/
  apart : ∀ id tmp, (Templates.ofList added).getTemplate id = some tmp →
    ∀ token ∈ tokensSeen history id, token ∉ tokensSeen past id
  /-- Snapshots are at the places of their tokens. -/
  tables : ∀ id tmp, (Templates.ofList added).getTemplate id = some tmp → ∃ array,
    decoder.templateCacheArrays[tmp.index.toNat]? =
        some (padded (tokensSeen past id).length array) ∧
      Tracks (DecoderHolds tmp) history id array

namespace Tracks

variable {holds : Nat → Message → Message → Prop} {history : List Call} {call : Call}
  {array : SnapShotCacheArray}

theorem nil (id : UInt32) : Tracks holds [] id [] :=
  ⟨rfl, by simp [tokensSeen]⟩

theorem skip {id : UInt32} (tracks : Tracks holds history id array) (other : call.templateID ≠ id) :
    Tracks holds (history ++ [call]) id array := by
  have tokens : tokensSeen (history ++ [call]) id = tokensSeen history id := by
    simp [tokensSeen_concat, enterToken, other]
  have last : lastMessage (history ++ [call]) id = lastMessage history id := by
    funext token
    simp [lastMessage_concat, other]
  obtain ⟨length_eq, snapshots⟩ := tracks
  exact ⟨by rw [tokens, length_eq], by rw [tokens, last]; exact snapshots⟩

theorem renew (tracks : Tracks holds history call.templateID array)
    (seen : call.token ∈ tokensSeen history call.templateID) {snapshot : Message}
    (held : holds ((tokensSeen history call.templateID).idxOf call.token) snapshot call.message) :
    Tracks holds (history ++ [call]) call.templateID
      (array.set ((tokensSeen history call.templateID).idxOf call.token) (some snapshot)) := by
  have same : tokensSeen (history ++ [call]) call.templateID =
      tokensSeen history call.templateID := by
    simp [tokensSeen_concat, enterToken, seen]
  refine ⟨by rw [List.length_set, same, tracks.length_eq], ?_⟩
  rw [same]
  intro place token at_
  obtain ⟨old, message, stored, last, oldHeld⟩ := tracks.snapshots place token at_
  obtain ⟨bound, isToken⟩ := List.getElem?_eq_some_iff.mp at_
  by_cases here : call.token = token
  · have place_eq : (tokensSeen history call.templateID).idxOf call.token = place := by
      rw [here, ← isToken]
      exact (nodup_tokensSeen history call.templateID).idxOf_getElem place bound
    rw [place_eq] at held ⊢
    refine ⟨snapshot, call.message, ?_, by simp [lastMessage_concat, here], held⟩
    exact List.getElem?_set_self (by rw [tracks.length_eq]; exact bound)
  · have apart : (tokensSeen history call.templateID).idxOf call.token ≠ place := by
      rintro rfl
      exact here (isToken ▸ (List.getElem_idxOf bound).symm)
    refine ⟨old, message, ?_, by simp [lastMessage_concat, here, last], oldHeld⟩
    rw [List.getElem?_set_ne apart, stored]

theorem enter (tracks : Tracks holds history call.templateID array)
    (fresh : call.token ∉ tokensSeen history call.templateID) (snapshot : Message)
    (held : holds (tokensSeen history call.templateID).length snapshot call.message) :
    Tracks holds (history ++ [call]) call.templateID (array ++ [some snapshot]) := by
  have grown : tokensSeen (history ++ [call]) call.templateID =
      tokensSeen history call.templateID ++ [call.token] := by
    simp [tokensSeen_concat, enterToken, fresh]
  have length_eq := tracks.length_eq
  refine ⟨by simp [grown, length_eq], ?_⟩
  rw [grown]
  intro place token at_
  rcases Nat.lt_or_ge place (tokensSeen history call.templateID).length with old | new
  · rw [List.getElem?_append_left old] at at_
    obtain ⟨former, message, stored, last, formerHeld⟩ := tracks.snapshots place token at_
    have here : call.token ≠ token := by
      rintro rfl
      exact fresh (List.mem_of_getElem? at_)
    refine ⟨former, message, ?_, by simp [lastMessage_concat, here, last], formerHeld⟩
    rw [List.getElem?_append_left (by omega), stored]
  · obtain ⟨bound, _⟩ := List.getElem?_eq_some_iff.mp at_
    rw [List.length_append, List.length_singleton] at bound
    obtain rfl : place = (tokensSeen history call.templateID).length := by omega
    rw [List.getElem?_concat_length, Option.some_inj] at at_
    refine ⟨snapshot, call.message, ?_, by simp [lastMessage_concat, at_], held⟩
    rw [← length_eq, List.getElem?_concat_length]

theorem of_mem {id : UInt32} (tracks : Tracks holds history id array) {token : List UInt8}
    (seen : token ∈ tokensSeen history id) : ∃ snapshot message : Message,
    array[(tokensSeen history id).idxOf token]? = some (some snapshot) ∧
      lastMessage history id token = some message ∧
      holds ((tokensSeen history id).idxOf token) snapshot message :=
  tracks.snapshots _ _ (List.getElem?_idxOf seen)

end Tracks

/-- Two templates of a set that answer to different ids have different slots. -/
theorem index_ne_of_ne {added : List Template} (few : added.length ≤ 255) {id other : UInt32}
    {tmp tmp' : Template} (found : (Templates.ofList added).getTemplate id = some tmp)
    (found' : (Templates.ofList added).getTemplate other = some tmp') (differ : id ≠ other) :
    tmp.index.toNat ≠ tmp'.index.toNat := by
  intro same
  have equal := Templates.getTemplate_inj few found found' (UInt8.toNat_inj.mp same)
  obtain ⟨_, _, _, _, here⟩ := Templates.getTemplate_ofList found
  obtain ⟨_, _, _, _, there⟩ := Templates.getTemplate_ofList found'
  exact differ (here ▸ there ▸ congrArg Template.id equal)

theorem Template.length_header (tmp : Template) (index : UInt64) :
    (tmp.header index).length ≤ 15 := by
  have := length_writeVarint32 tmp.id
  have := length_writeVarint64 index
  rw [header, List.length_append]
  omega

/-! ## The encoder's steps -/

namespace EncoderFollows

variable {added : List Template} {history : List Call} {encoder : Context} {call : Call}

theorem fresh (few : added.length ≤ 255) :
    EncoderFollows added [] (Context.new (Templates.ofList added)) where
  templates := rfl
  tables id tmp found := by
    have bound := Templates.index_lt_count few found
    exact ⟨[], by simp [Context.new, bound, tokensSeen], by simp [Context.new, bound], .nil id⟩

theorem skip (follows : EncoderFollows added history encoder)
    (unknown : (Templates.ofList added).getTemplate call.templateID = none) (buffer : List UInt8) :
    encoder.encode call.message call.templateID call.token buffer = some (encoder, buffer) ∧
      EncoderFollows added (history ++ [call]) encoder := by
  refine ⟨by simp [Context.encode, follows.templates, unknown], follows.templates, ?_⟩
  intro id tmp found
  obtain ⟨array, map_eq, array_eq, tracks⟩ := follows.tables id tmp found
  have other : call.templateID ≠ id := by
    rintro rfl
    simp [unknown] at found
  have tokens : tokensSeen (history ++ [call]) id = tokensSeen history id := by
    simp [tokensSeen_concat, enterToken, other]
  exact ⟨array, by rw [tokens, map_eq], array_eq, tracks.skip other⟩

/-- The tables of the call's template change, the others do not. -/
theorem replace (few : added.length ≤ 255) (follows : EncoderFollows added history encoder)
    {tmp : Template} (found : (Templates.ofList added).getTemplate call.templateID = some tmp)
    (maps : List SnapShotCacheMap) {array : SnapShotCacheArray}
    (map_eq : maps[tmp.index.toNat]? =
      some (tokensSeen (history ++ [call]) call.templateID).zipIdx)
    (others : ∀ slot, slot ≠ tmp.index.toNat → maps[slot]? = encoder.templateCacheMaps[slot]?)
    (tracks : Tracks (EncoderHolds tmp) (history ++ [call]) call.templateID array) :
    EncoderFollows added (history ++ [call])
      ⟨encoder.templates, maps, encoder.templateCacheArrays.set tmp.index.toNat array⟩ := by
  refine ⟨follows.templates, ?_⟩
  intro id tmp' found'
  obtain ⟨old, oldMap, oldArray, oldTracks⟩ := follows.tables id tmp' found'
  by_cases same : call.templateID = id
  · subst same
    rw [found, Option.some_inj] at found'
    subst found'
    refine ⟨array, map_eq, List.getElem?_set_self ?_, tracks⟩
    exact (List.getElem?_eq_some_iff.mp oldArray).1
  · have apart := index_ne_of_ne few found found' same
    have tokens : tokensSeen (history ++ [call]) id = tokensSeen history id := by
      simp [tokensSeen_concat, enterToken, same]
    refine ⟨old, ?_, ?_, oldTracks.skip same⟩
    · rw [others _ (Ne.symm apart), oldMap, tokens]
    · rw [List.getElem?_set_ne apart, oldArray]

/-- A call for a known template appends the bytes that the history determines, if its strings can be
written. -/
theorem step (few : added.length ≤ 255) (typed : ∀ tmp ∈ added, tmp.WellTyped)
    (follows : EncoderFollows added history encoder) {tmp : Template}
    (found : (Templates.ofList added).getTemplate call.templateID = some tmp)
    (fits : call.message.Fits tmp.instructions) (buffer : List UInt8)
    (small : buffer.length + 15 < 2147483648) :
    ∃ encoder', DefinedIf call.message.Writable
        (encoder.encode call.message call.templateID call.token buffer)
        (encoder', buffer ++ wireBytes tmp history call) ∧
      (call.message.Writable → EncoderFollows added (history ++ [call]) encoder') := by
  have wellTyped := Templates.wellTyped_of_getTemplate typed found
  obtain ⟨array, map_eq, array_eq, tracks⟩ := follows.tables _ _ found
  have lookup := lookup_zipIdx (tokensSeen history call.templateID) call.token 0
  have headroom : ∀ index, (buffer ++ tmp.header index).length < 2147483648 := by
    intro index
    have := tmp.length_header index
    rw [List.length_append]
    omega
  by_cases seen : call.token ∈ tokensSeen history call.templateID
  · obtain ⟨snapshot, previous, stored, last, held⟩ := tracks.of_mem seen
    rw [if_pos seen, Nat.zero_add] at lookup
    have snapshotWritable : snapshot.Writable := by
      rw [Message.writable_iff, held.values, ← Message.writable_iff]
      exact held.writable
    obtain ⟨updated, updatedFits, updatedIndex, updatedValues, encoded⟩ :=
      Template.encode_spec wellTyped fits held.fits snapshotWritable (headroom snapshot.index)
    refine ⟨_, ?_, fun writable => follows.replace few found _ ?_
      (fun _ _ => rfl) (tracks.renew seen ⟨updatedIndex.trans held.index, updatedFits, fits,
        updatedValues, writable⟩)⟩
    · simp only [Context.encode, follows.templates, found, map_eq, array_eq, lookup, stored,
        wireBytes, last, Option.bind_eq_bind, Option.bind_some, Option.join_some]
      rw [held.index, held.values] at encoded
      exact encoded.bind_some rfl
    · rw [map_eq]
      simp [tokensSeen_concat, enterToken, seen]
  · rw [if_neg seen] at lookup
    have indexed : (call.message.setIndex
        (UInt64.ofNat (tokensSeen history call.templateID).length)).Fits tmp.instructions :=
      ⟨fits.types, fits.counted⟩
    have encoded : DefinedIf call.message.Writable (tmp.encodeFull
        (call.message.setIndex (UInt64.ofNat (tokensSeen history call.templateID).length)) buffer)
        (buffer ++ tmp.full (UInt64.ofNat (tokensSeen history call.templateID).length)
          call.message.values) :=
      Template.encodeFull_spec wellTyped indexed (headroom _)
    refine ⟨_, ?_, fun writable => follows.replace few found
      (encoder.templateCacheMaps.set tmp.index.toNat
        ((tokensSeen history call.templateID).zipIdx ++ [(call.token, array.length)])) ?_
      (fun slot differ => List.getElem?_set_ne (Ne.symm differ)) (tracks.enter seen
        (call.message.setIndex (UInt64.ofNat array.length)) ?_)⟩
    · simp only [Context.encode, follows.templates, found, map_eq, array_eq, lookup, wireBytes,
        lastMessage_eq_none_iff.mpr seen, tracks.length_eq, Option.bind_eq_bind, Option.bind_some]
      exact encoded.bind_some rfl
    · rw [List.getElem?_set_self (List.getElem?_eq_some_iff.mp map_eq).1, tokensSeen_concat,
        enterToken, if_pos ⟨rfl, seen⟩, List.zipIdx_append, tracks.length_eq]
      simp
    · exact ⟨by rw [tracks.length_eq]; rfl, ⟨fits.types, fits.counted⟩, fits, rfl, writable⟩

end EncoderFollows

/-! ## The decoder's steps -/

/-- The made-up snapshot of a new index has the template's fields. -/
theorem Template.WellTyped.reset_fits {tmp : Template} (typed : tmp.WellTyped) {message : Message}
    (isMessage : tmp.inputMessage = some message) (index : UInt64) :
    (message.setIndex index).reset.Fits tmp.instructions := by
  obtain ⟨default, isDefault, counted, fields⟩ := typed.default
  rw [isMessage, Option.some_inj] at isDefault
  subst isDefault
  have few := typed.few
  refine ⟨?_, ?_⟩
  · rw [Message.types_reset, Message.types_setIndex, Message.types, fields, List.map_map]
    rfl
  · have length : message.fields.length = tmp.instructions.length := by simp [fields]
    simp only [Message.Counted, Message.reset, Message.setIndex, List.length_append,
      List.length_map, List.length_take, List.length_drop, UInt16.toNat_ofNat']
    omega

theorem Message.Fits.length_values {instructions : List FieldInstruction} {message : Message}
    (fits : message.Fits instructions) : message.values.length = instructions.length := by
  have lengths := congrArg List.length fits.types
  simpa [Message.types, Message.values] using lengths

theorem Message.Fits.admitAll {instructions : List FieldInstruction} {message : Message}
    (fits : message.Fits instructions) : AdmitAll instructions message.values :=
  admitAll_of_types fits.types

theorem wireBytes_ne_nil (tmp : Template) (history : List Call) (call : Call) :
    wireBytes tmp history call ≠ [] := by
  have := (writeVarint32_isVarint tmp.id).ne_nil
  unfold wireBytes
  cases lastMessage history call.templateID call.token <;>
    simp [Template.full, Template.wire, Template.header, this]

/-- The index of a call's token stands in the header of its bytes. -/
theorem wireBytes_eq_header (tmp : Template) (history : List Call) (call : Call) :
    ∃ place rest, wireBytes tmp history call = tmp.header (UInt64.ofNat place) ++ rest ∧
      place ≤ (tokensSeen history call.templateID).length ∧
      place < (tokensSeen (history ++ [call]) call.templateID).length := by
  rw [tokensSeen_concat, enterToken]
  cases last : lastMessage history call.templateID call.token with
  | none =>
      rw [if_pos ⟨rfl, lastMessage_eq_none_iff.mp last⟩]
      exact ⟨_, _, by simp only [wireBytes, last]; rfl, Nat.le_refl _, by simp⟩
  | some previous =>
      have seen := mem_tokensSeen_of_lastMessage last
      have bound := List.idxOf_lt_length_of_mem seen
      rw [if_neg (by simp [seen])]
      exact ⟨_, _, by simp only [wireBytes, last]; rfl, Nat.le_of_lt bound, bound⟩

/-! ### A decoder that joins late -/

@[simp] theorem padded_zero (array : SnapShotCacheArray) : padded 0 array = array := by
  cases array <;> rfl

theorem padded_of_ne_nil (missed : Nat) {array : SnapShotCacheArray} (nonempty : array ≠ []) :
    padded missed array = List.replicate missed none ++ array := by
  cases array with
  | nil => exact absurd rfl nonempty
  | cons entry array => rfl

theorem length_padded (missed : Nat) (array : SnapShotCacheArray) :
    (padded missed array).length ≤ missed + array.length := by
  cases array <;> simp [padded]

/-- A new index makes room for the tokens that were missed and for its own. -/
theorem padded_append (missed : Nat) (array : SnapShotCacheArray) :
    padded missed array ++
        List.replicate (missed + array.length - (padded missed array).length) none ++ [none] =
      List.replicate missed none ++ array ++ [none] := by
  cases array with
  | nil => simp [padded]
  | cons entry array => simp [padded]

/-- Where no call is for a token of the past, the tokens of both stand one behind the other. -/
theorem tokensSeen_append {past history : List Call} {id : UInt32}
    (apart : ∀ token ∈ tokensSeen history id, token ∉ tokensSeen past id) :
    tokensSeen (past ++ history) id = tokensSeen past id ++ tokensSeen history id := by
  induction history using List.reverseRecOn with
  | nil => simp [tokensSeen]
  | append_singleton history call ih =>
      obtain ⟨rest, longer⟩ := prefix_tokensSeen history [call] id
      have earlier := ih fun token member => apart token (longer ▸ List.mem_append_left rest member)
      rw [← List.append_assoc, tokensSeen_concat, earlier, tokensSeen_concat]
      rw [tokensSeen_concat] at apart
      simp only [enterToken, List.mem_append, not_or] at apart ⊢
      by_cases entered : call.templateID = id ∧ call.token ∉ tokensSeen history id
      · have unseen : call.token ∉ tokensSeen past id :=
          apart call.token (by rw [if_pos entered]; simp)
        rw [if_pos entered, if_pos ⟨entered.1, unseen, entered.2⟩, List.append_assoc]
      · rw [if_neg entered, if_neg fun both => entered ⟨both.1, both.2.2⟩]

/-- The last message of a token that the past has not seen. -/
theorem lastMessage_append {past : List Call} (history : List Call) {id : UInt32}
    {token : List UInt8} (unseen : token ∉ tokensSeen past id) :
    lastMessage (past ++ history) id token = lastMessage history id token := by
  induction history using List.reverseRecOn with
  | nil => simpa [lastMessage] using lastMessage_eq_none_iff.mpr unseen
  | append_singleton history call ih =>
      rw [← List.append_assoc, lastMessage_concat, ih, lastMessage_concat]

namespace LateFollows

variable {added : List Template} {past history : List Call} {decoder : Context} {call : Call}

theorem fresh (few : added.length ≤ 255) (past : List Call) :
    LateFollows added past [] (Context.new (Templates.ofList added)) where
  templates := rfl
  apart := by simp [tokensSeen]
  tables id tmp found := by
    have bound := Templates.index_lt_count few found
    exact ⟨[], by simp [Context.new, bound, padded], .nil id⟩

/-- A call for an unknown template puts nothing on the wire. -/
theorem skip (follows : LateFollows added past history decoder)
    (unknown : (Templates.ofList added).getTemplate call.templateID = none) :
    LateFollows added past (history ++ [call]) decoder := by
  have other : ∀ id tmp, (Templates.ofList added).getTemplate id = some tmp →
      call.templateID ≠ id := by
    rintro _ tmp found rfl
    simp [unknown] at found
  refine ⟨follows.templates, ?_, ?_⟩
  · intro id tmp found
    rw [tokensSeen_concat, enterToken, if_neg fun entered => other id tmp found entered.1]
    exact follows.apart id tmp found
  · intro id tmp found
    obtain ⟨array, array_eq, tracks⟩ := follows.tables id tmp found
    exact ⟨array, array_eq, tracks.skip (other id tmp found)⟩

/-- The table of the call's template changes, the others do not. -/
theorem replace (few : added.length ≤ 255) (follows : LateFollows added past history decoder)
    {tmp : Template} (found : (Templates.ofList added).getTemplate call.templateID = some tmp)
    (unseen : call.token ∉ tokensSeen past call.templateID) {array : SnapShotCacheArray}
    (tracks : Tracks (DecoderHolds tmp) (history ++ [call]) call.templateID array) :
    LateFollows added past (history ++ [call])
      { decoder with
        templateCacheArrays := decoder.templateCacheArrays.set tmp.index.toNat
          (padded (tokensSeen past call.templateID).length array) } := by
  refine ⟨follows.templates, ?_, ?_⟩
  · intro id tmp' found' token member
    rw [tokensSeen_concat, enterToken] at member
    split at member
    · rename_i entered
      rcases List.mem_append.mp member with old | new
      · exact follows.apart id tmp' found' token old
      · rw [List.mem_singleton.mp new, ← entered.1]
        exact unseen
    · exact follows.apart id tmp' found' token member
  · intro id tmp' found'
    obtain ⟨old, oldArray, oldTracks⟩ := follows.tables id tmp' found'
    by_cases same : call.templateID = id
    · subst same
      rw [found, Option.some_inj] at found'
      subst found'
      exact ⟨array, List.getElem?_set_self (List.getElem?_eq_some_iff.mp oldArray).1, tracks⟩
    · refine ⟨old, ?_, oldTracks.skip same⟩
      rw [List.getElem?_set_ne (index_ne_of_ne few found found' same), oldArray]

/-- One pass over the bytes of a call puts out one message. -/
theorem step (few : added.length ≤ 255) (typed : ∀ tmp ∈ added, tmp.WellTyped)
    (follows : LateFollows added past history decoder) {tmp : Template}
    (found : (Templates.ofList added).getTemplate call.templateID = some tmp)
    (fits : call.message.Fits tmp.instructions)
    (unseen : call.token ∉ tokensSeen past call.templateID)
    (countable : (tokensSeen (past ++ (history ++ [call])) call.templateID).length ≤
      Context.maxSize)
    {memory : Memory} (end_ : Int) (cursor : Context.Cursor) (context : cursor.context = decoder)
    (before : cursor.begin_ ≤ end_)
    (held : memory.Holds cursor.begin_ (wireBytes tmp (past ++ history) call))
    (room : (wireBytes tmp (past ++ history) call).length ≤ cursor.size.toNat)
    (small : cursor.size.toNat < 2147483648) :
    ∃ (filled : Message) (size : UInt64) (decoder' : Context), filled.Fits tmp.instructions ∧
      filled.values = deliveredValues tmp.instructions
        (lastMessage (past ++ history) call.templateID call.token) call.message ∧
      size.toNat = cursor.size.toNat - (wireBytes tmp (past ++ history) call).length ∧
      (Context.decodePass memory end_ cursor).outcome = some (.again
        { begin_ := cursor.begin_ + (wireBytes tmp (past ++ history) call).length
          size := size
          messages := cursor.messages ++ [filled]
          context := decoder' }) ∧
      LateFollows added past (history ++ [call]) decoder' := by
  subst context
  have wellTyped := Templates.wellTyped_of_getTemplate typed found
  obtain ⟨_, _, _, _, sameId⟩ := Templates.getTemplate_ofList found
  obtain ⟨array, array_eq, tracks⟩ := follows.tables _ _ found
  have known : cursor.context.templates.getTemplate tmp.id = some tmp := by
    rw [follows.templates, sameId, found]
  have tokens := tokensSeen_append (follows.apart _ _ found)
  have last' := lastMessage_append history unseen
  have length_eq := tracks.length_eq
  have exact_ : ∀ place, place < Context.maxSize → (UInt64.ofNat place).toNat = place :=
      fun place bound => by
    rw [UInt64.toNat_ofNat', Nat.mod_eq_of_lt (bound.trans Context.maxSize_lt)]
  have countable' : (tokensSeen past call.templateID).length +
      (enterToken call.templateID (tokensSeen history call.templateID) call).length ≤
        Context.maxSize := by
    rw [← List.append_assoc, tokensSeen_concat, tokens] at countable
    unfold enterToken at countable ⊢
    split <;> simp_all
  by_cases seen : call.token ∈ tokensSeen history call.templateID
  · obtain ⟨snapshot, previous, stored, last, cached⟩ := tracks.of_mem seen
    rw [enterToken, if_neg (by simp [seen])] at countable'
    have bound := List.idxOf_lt_length_of_mem seen
    have place := exact_ ((tokensSeen past call.templateID).length +
      (tokensSeen history call.templateID).idxOf call.token) (by omega)
    have nonempty : array ≠ [] := by
      rintro rfl
      simp at stored
    have entry : (padded (tokensSeen past call.templateID).length array)[
        (tokensSeen past call.templateID).length +
          (tokensSeen history call.templateID).idxOf call.token]? = some (some snapshot) := by
      rw [padded_of_ne_nil _ nonempty, List.getElem?_append_right (by simp)]
      simpa using stored
    simp only [wireBytes, last', last, Template.wire, tokens,
      List.idxOf_append_of_notMem unseen] at held room ⊢
    obtain ⟨present, partial_⟩ := wellTyped.present previous.values call.message.values
    have exchanges := exchangesAll_wire (defaults tmp.instructions) wellTyped.sound present
      partial_ cached.messageFits.admitAll fits.admitAll (by simp [defaults])
    obtain ⟨filled, updated, size, filledFits, filledValues, updatedFits, updatedValues, left,
      outcome⟩ := Context.decodePass_spec wellTyped before known array_eq
        (Or.inl ⟨rfl, by rw [place, entry]⟩) cached.fits cached.values exchanges held room small
    refine ⟨filled, size, _, filledFits, filledValues, left, outcome, ?_⟩
    have renewed := follows.replace few found unseen
      (tracks.renew seen ⟨updatedFits, fits, updatedValues⟩)
    rw [padded_of_ne_nil _ (by simpa using nonempty)] at renewed
    rw [place, padded_of_ne_nil _ nonempty, List.set_append_right _ _ (by simp)]
    simpa using renewed
  · rw [enterToken, if_pos ⟨rfl, seen⟩, List.length_append, List.length_singleton] at countable'
    have last := lastMessage_eq_none_iff.mpr seen
    have place := exact_ ((tokensSeen past call.templateID).length +
      (tokensSeen history call.templateID).length) (by omega)
    obtain ⟨default, isDefault, _⟩ := wellTyped.default
    have cacheFits := wellTyped.reset_fits isDefault
      (UInt64.ofNat ((tokensSeen past call.templateID).length +
        (tokensSeen history call.templateID).length))
    have count : (tokensSeen (past ++ history) call.templateID).length =
        (tokensSeen past call.templateID).length +
          (tokensSeen history call.templateID).length := by
      rw [tokens, List.length_append]
    simp only [wireBytes, last', last, Template.full, count] at held room ⊢
    have exchanges := exchangesAll_full (defaults tmp.instructions) fits.admitAll
      (by simp [defaults]) cacheFits.length_values
    have beyond := length_padded (tokensSeen past call.templateID).length array
    obtain ⟨filled, updated, size, filledFits, filledValues, updatedFits, updatedValues, left,
      outcome⟩ := Context.decodePass_spec wellTyped before known array_eq
        (Or.inr ⟨rfl, by omega, by omega, default, isDefault, rfl⟩) cacheFits rfl exchanges
        held room small
    refine ⟨filled, size, _, filledFits, filledValues, left, outcome, ?_⟩
    have entered := follows.replace few found unseen
      (tracks.enter seen _ ⟨updatedFits, fits, updatedValues⟩)
    rw [padded_of_ne_nil _ (by simp)] at entered
    rw [place, ← length_eq, padded_append, List.append_assoc, List.set_append_right _ _ (by simp)]
    simpa [← length_eq] using entered

end LateFollows

namespace DecoderFollows

variable {added : List Template} {history : List Call} {decoder : Context} {call : Call}

theorem iff_late : DecoderFollows added history decoder ↔ LateFollows added [] history decoder := by
  constructor
  · intro follows
    refine ⟨follows.templates, by simp [tokensSeen], fun id tmp found => ?_⟩
    obtain ⟨array, array_eq, tracks⟩ := follows.tables id tmp found
    exact ⟨array, by rw [array_eq]; simp [tokensSeen], tracks⟩
  · intro follows
    refine ⟨follows.templates, fun id tmp found => ?_⟩
    obtain ⟨array, array_eq, tracks⟩ := follows.tables id tmp found
    exact ⟨array, by rw [array_eq]; simp [tokensSeen], tracks⟩

theorem fresh (few : added.length ≤ 255) :
    DecoderFollows added [] (Context.new (Templates.ofList added)) :=
  iff_late.mpr (.fresh few [])

end DecoderFollows

end FlashForwarder
