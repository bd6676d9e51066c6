import FlashForwarder.Compressor.RoundTrip

/-!
# Snapshots never drift apart

Each message travels in a buffer of its own.  After every message the two snapshot tables agree
with each other and with the messages that were encoded.
-/

namespace FlashForwarder

open WireFormat ProgramLoop FieldInstruction

/-- Decode successive buffers, each with what surrounds it in memory. -/
def FeedsAll : Context → List (List UInt8 × Memory) → Context → Prop
  | decoder, [], final => final = decoder
  | decoder, (buffer, outside) :: fed, final =>
      ∃ result, decoder.Decodes (Memory.ofBuffer buffer outside) (UInt64.ofNat buffer.length) []
        result ∧ FeedsAll result.context fed final

theorem FeedsAll.unique {fed : List (List UInt8 × Memory)} {decoder final other : Context}
    (first : FeedsAll decoder fed final) (second : FeedsAll decoder fed other) : final = other := by
  induction fed generalizing decoder with
  | nil => exact Eq.trans first (Eq.symm second)
  | cons head fed ih =>
      obtain ⟨result, decoded, rest⟩ := first
      obtain ⟨result', decoded', rest'⟩ := second
      have same := (Context.decodes_iff.mp decoded).unique (Context.decodes_iff.mp decoded')
      subst same
      exact ih rest rest'

/-- The index that a context has given to a token. -/
def Context.place (context : Context) (tmp : Template) (token : List UInt8) : Option Nat :=
  context.templateCacheMaps[tmp.index.toNat]?.bind (·.lookup token)

/-- The snapshots of one template on both sides, against the tokens seen so far and the message
last encoded for each. -/
structure SlotAgrees (tmp : Template) (tokens : List (List UInt8))
    (last : List UInt8 → Option Message) (encoder decoder : Context)
    (encoderArray decoderArray : SnapShotCacheArray) : Prop where
  /-- Each token was entered once. -/
  distinct : tokens.Nodup
  /-- Tokens have the indices from 0 on, in order of first appearance. -/
  places : ∀ (token : List UInt8) (place : Nat),
    encoder.place tmp token = some place ↔ tokens[place]? = some token
  /-- The encoder's snapshots. -/
  encoderArray_eq : encoder.templateCacheArrays[tmp.index.toNat]? = some encoderArray
  /-- The decoder's snapshots. -/
  decoderArray_eq : decoder.templateCacheArrays[tmp.index.toNat]? = some decoderArray
  /-- The decoder has one for each token. -/
  length_eq : decoderArray.length = tokens.length
  /-- None of them is null. -/
  held : none ∉ decoderArray
  /-- A token's two snapshots and its last message agree on every field. -/
  agree : ∀ (place : Nat) (token : List UInt8), tokens[place]? = some token →
    ∃ encoderSnapshot decoderSnapshot message : Message,
      encoderArray[place]? = some (some encoderSnapshot) ∧
      decoderArray[place]? = some (some decoderSnapshot) ∧ last token = some message ∧
      encoderSnapshot.view = message.view ∧ decoderSnapshot.view = message.view

/-- The snapshots of every template agree. -/
def SnapshotsAgree (added : List Template) (history : List Call) (encoder decoder : Context) :
    Prop :=
  ∀ id tmp, (Templates.ofList added).getTemplate id = some tmp → ∃ encoderArray decoderArray,
    SlotAgrees tmp (tokensSeen history id) (lastMessage history id) encoder decoder encoderArray
      decoderArray

/-- Every index given by one context is still the same in another. -/
def KeepsIndices (added : List Template) (before after : Context) : Prop :=
  ∀ id tmp, (Templates.ofList added).getTemplate id = some tmp → ∀ token place,
    before.place tmp token = some place → after.place tmp token = some place

/-- The strings of a call are shorter than 2 GiB. -/
def Call.Short (call : Call) : Prop :=
  ∀ bytes, FieldValue.text bytes ∈ call.message.values → bytes.length < 2147483648

theorem Call.Short.writable {call : Call} (short : call.Short) (added : List Template) :
    call.Writable added := by
  intro tmp _
  rw [Message.writable_iff]
  intro value member
  cases value with
  | text bytes =>
      have := short bytes member
      change (UInt32.ofNat bytes.length).toNat < 2147483648
      rw [UInt32.toNat_ofNat']
      omega
  | integer bits => trivial
  | unread => trivial

section

variable {added : List Template}

theorem EncoderFollows.place_iff {history : List Call} {encoder : Context}
    (follows : EncoderFollows added history encoder) {id : UInt32} {tmp : Template}
    (found : (Templates.ofList added).getTemplate id = some tmp) (token : List UInt8)
    (place : Nat) :
    encoder.place tmp token = some place ↔ (tokensSeen history id)[place]? = some token := by
  obtain ⟨_, map_eq, _, _⟩ := follows.tables id tmp found
  have lookup := lookup_zipIdx (tokensSeen history id) token 0
  rw [Context.place, map_eq, Option.bind_some, lookup]
  constructor
  · intro given
    split at given
    · rename_i seen
      rw [Nat.zero_add, Option.some_inj] at given
      rw [← given, List.getElem?_idxOf seen]
    · simp at given
  · intro at_
    obtain ⟨bound, isToken⟩ := List.getElem?_eq_some_iff.mp at_
    rw [if_pos (List.mem_of_getElem? at_), Nat.zero_add, ← isToken,
      (nodup_tokensSeen history id).idxOf_getElem place bound]

theorem EncoderFollows.keepsIndices {history later : List Call} {before after : Context}
    (follows : EncoderFollows added history before)
    (follows' : EncoderFollows added (history ++ later) after) :
    KeepsIndices added before after := by
  intro id tmp found token place given
  rw [follows.place_iff found] at given
  rw [follows'.place_iff found]
  obtain ⟨rest, longer⟩ := prefix_tokensSeen history later id
  rw [← longer, List.getElem?_append_left (List.getElem?_eq_some_iff.mp given).1, given]

/-- Contexts that follow the same history agree, if its strings are short. -/
theorem EncoderFollows.agree {history : List Call} {encoder decoder : Context}
    (follows : EncoderFollows added history encoder)
    (decoderFollows : DecoderFollows added history decoder)
    (short : ∀ call ∈ history, call.Short) : SnapshotsAgree added history encoder decoder := by
  intro id tmp found
  obtain ⟨encoderArray, _, encoderArray_eq, encoderTracks⟩ := follows.tables id tmp found
  obtain ⟨decoderArray, decoderArray_eq, decoderTracks⟩ := decoderFollows.tables id tmp found
  refine ⟨encoderArray, decoderArray, nodup_tokensSeen history id, follows.place_iff found,
    encoderArray_eq, decoderArray_eq, decoderTracks.length_eq, ?_, ?_⟩
  · intro member
    obtain ⟨place, bound, entry⟩ := List.getElem_of_mem member
    have tokenBound : place < (tokensSeen history id).length := by
      rw [← decoderTracks.length_eq]
      exact bound
    obtain ⟨snapshot, _, stored, _⟩ := decoderTracks.snapshots place (tokensSeen history id)[place]
      (List.getElem?_eq_getElem tokenBound)
    rw [List.getElem?_eq_getElem bound, entry] at stored
    simp at stored
  · intro place token at_
    obtain ⟨encoderSnapshot, message, encoderStored, last, encoderHeld⟩ :=
      encoderTracks.snapshots place token at_
    obtain ⟨decoderSnapshot, message', decoderStored, last', decoderHeld⟩ :=
      decoderTracks.snapshots place token at_
    rw [last, Option.some_inj] at last'
    subst last'
    obtain ⟨call, member, _, isMessage⟩ := exists_call_of_lastMessage last
    have image : message.values.map FieldValue.image = message.values :=
      (map_image_eq_iff _).mpr fun bytes text =>
        (short call member bytes (isMessage ▸ text)).trans (by decide)
    refine ⟨encoderSnapshot, decoderSnapshot, message, encoderStored, decoderStored, last, ?_, ?_⟩
    · rw [Message.view, encoderHeld.fits.types, encoderHeld.values, Message.view,
        encoderHeld.messageFits.types]
    · rw [Message.view, decoderHeld.fits.types, decoderHeld.values, image, Message.view,
        decoderHeld.messageFits.types]

variable (few : added.length ≤ 255) (typed : ∀ tmp ∈ added, tmp.WellTyped)

include few typed

/-- A decoder can be fed the output of any sequence of calls, one call at a time. -/
theorem DecoderFollows.feeds (fed : List (List UInt8 × Memory)) {calls history : List Call}
    {decoder : Context} (follows : DecoderFollows added history decoder)
    (fits : ∀ call ∈ calls, call.Fits added)
    (outputs : fed.map Prod.fst = outputsOf added history calls)
    (small : ∀ buffer ∈ fed, buffer.1.length < 2147483648)
    (countable : FewTokens added (history ++ calls)) :
    ∃ decoder', FeedsAll decoder fed decoder' ∧
      DecoderFollows added (history ++ calls) decoder' := by
  induction calls generalizing history decoder fed with
  | nil =>
      obtain rfl : fed = [] := by simpa [outputsOf] using outputs
      exact ⟨decoder, rfl, by simpa using follows⟩
  | cons call calls ih =>
      obtain _ | ⟨⟨buffer, outside⟩, fed⟩ := fed
      · simp [outputsOf] at outputs
      simp only [outputsOf, List.map_cons, List.cons.injEq] at outputs
      obtain ⟨isOutput, outputs⟩ := outputs
      rw [← List.singleton_append, ← List.append_assoc] at countable
      have alone : (outputsOf added history [call]).flatten = buffer := by
        simp [outputsOf, isOutput]
      obtain ⟨result, decoded, _, follows⟩ := follows.decodes few typed [call]
        (by simpa using fits call (by simp)) countable.front outside (by
          rw [alone]
          exact small _ (List.mem_cons_self ..))
      obtain ⟨final, rest, follows⟩ := ih _ follows
        (fun other member => fits other (by simp [member]))
        outputs (fun other member => small other (by simp [member])) countable
      rw [alone] at decoded
      exact ⟨final, ⟨result, decoded, rest⟩, by simpa using follows⟩

end

/-- After any sequence of calls whose output is fed to a decoder one message per buffer, the
snapshot tables agree, and no later call changes an index. -/
theorem snapshots_never_drift {added : List Template} {calls : List Call}
    (few : added.length ≤ 255) (typed : ∀ tmp ∈ added, tmp.WellTyped)
    (fits : ∀ call ∈ calls, call.Fits added) (short : ∀ call ∈ calls, call.Short)
    (countable : FewTokens added calls) :
    ∃ encoder outputs,
      encodeAll (Context.new (Templates.ofList added)) calls = some (encoder, outputs) ∧
      (∀ fed : List (List UInt8 × Memory), fed.map Prod.fst = outputs →
        (∀ buffer ∈ fed, buffer.1.length < 2147483648) →
        ∃ decoder, FeedsAll (Context.new (Templates.ofList added)) fed decoder ∧
          SnapshotsAgree added calls encoder decoder) ∧
      ∀ later : List Call, (∀ call ∈ later, call.Fits added) →
        (∀ call ∈ later, call.Writable added) →
        ∃ encoder' outputs', encodeAll encoder later = some (encoder', outputs') ∧
          KeepsIndices added encoder encoder' := by
  have writable : ∀ call ∈ calls, call.Writable added :=
    fun call member => (short call member).writable added
  obtain ⟨encoder, encoded, follows⟩ := (EncoderFollows.fresh few).run few typed fits
  replace follows := follows writable
  rw [List.nil_append] at follows
  refine ⟨encoder, _, encoded.1 writable, ?_, ?_⟩
  · intro fed outputs small
    obtain ⟨decoder, feeds, decoderFollows⟩ :=
      (DecoderFollows.fresh few).feeds few typed _ fits outputs small countable
    exact ⟨decoder, feeds, follows.agree decoderFollows short⟩
  · intro later laterFits laterWritable
    obtain ⟨encoder', encoded', follows'⟩ := follows.run few typed laterFits
    exact ⟨encoder', _, encoded'.1 laterWritable, follows.keepsIndices (follows' laterWritable)⟩

/-- Two prices for one instrument, each in a buffer of its own. -/
theorem snapshots_never_drift_prices :
    ∃ encoder outputs,
      encodeAll (Context.new (Templates.ofList [priceTemplate])) [priceCall 5, priceCall 6] =
        some (encoder, outputs) ∧
      (∀ fed : List (List UInt8 × Memory), fed.map Prod.fst = outputs →
        (∀ buffer ∈ fed, buffer.1.length < 2147483648) →
        ∃ decoder, FeedsAll (Context.new (Templates.ofList [priceTemplate])) fed decoder ∧
          SnapshotsAgree [priceTemplate] [priceCall 5, priceCall 6] encoder decoder) ∧
      ∀ later : List Call, (∀ call ∈ later, call.Fits [priceTemplate]) →
        (∀ call ∈ later, call.Writable [priceTemplate]) →
        ∃ encoder' outputs', encodeAll encoder later = some (encoder', outputs') ∧
          KeepsIndices [priceTemplate] encoder encoder' :=
  snapshots_never_drift (by decide) wellTyped_priceTemplate (by simp [fits_priceCall])
    (by simp [Call.Short, priceCall, Message.values, Message.new, Message.addField, Field.new,
      Field.setInteger, FieldInteger.fieldType, Field.value, FieldInteger.store])
    (fewTokens_of_small (by decide))

/-- A template with one copied string. -/
def textTemplate : Template :=
  ((Template.new 1).setMessage (Message.new.addField (Field.new .string))).addInstruction
    (.string ⟨.copy, 0⟩)

/-- A string encoded for one instrument. -/
def textCall (text : List UInt8) : Call :=
  ⟨Message.new.addField ((Field.new .string).setString text), 1, [65]⟩

theorem wellTyped_textTemplate : ∀ tmp ∈ [textTemplate], tmp.WellTyped := by
  intro tmp member
  rw [List.mem_singleton] at member
  subst member
  refine ⟨by decide, ⟨rfl, trivial⟩, ?_, _, rfl, rfl, rfl⟩
  intro instruction member
  obtain rfl : instruction = .string ⟨.copy, 0⟩ := by
    simpa [textTemplate, Template.addInstruction, Template.setMessage, Template.new,
      FieldInstruction.setIndex] using member
  rfl

theorem fits_textCall (text : List UInt8) : (textCall text).Fits [textTemplate] := by
  intro tmp found
  obtain rfl : textTemplate.setIndex 0 = tmp := Option.some_inj.mp found
  exact ⟨rfl, rfl⟩

/-- A string of exactly 4 GiB is sent as the empty string, so the two snapshots differ. -/
theorem snapshots_drift_on_huge_strings :
    ¬∀ (added : List Template) (calls : List Call), added.length ≤ 255 →
      (∀ tmp ∈ added, tmp.WellTyped) → (∀ call ∈ calls, call.Fits added) →
      ∀ encoder outputs,
        encodeAll (Context.new (Templates.ofList added)) calls = some (encoder, outputs) →
        ∀ fed : List (List UInt8 × Memory), fed.map Prod.fst = outputs →
          (∀ buffer ∈ fed, buffer.1.length < 2147483648) →
          ∃ decoder, FeedsAll (Context.new (Templates.ofList added)) fed decoder ∧
            SnapshotsAgree added calls encoder decoder := by
  intro claimed
  have few : [textTemplate].length ≤ 255 := by decide
  obtain ⟨text, huge⟩ : ∃ text : List UInt8, text.length = 2 ^ 32 :=
    ⟨List.replicate (2 ^ 32) 0, List.length_replicate⟩
  have fits : ∀ call ∈ [textCall text], call.Fits [textTemplate] := by simp [fits_textCall]
  have values : (textCall text).message.values = [.text text] := rfl
  have image : (FieldValue.text text).image = .text [] := by simp [FieldValue.image, huge]
  have cut : UInt32.ofNat text.length = 0 := by
    rw [huge]
    decide
  have writable : ∀ call ∈ [textCall text], call.Writable [textTemplate] := by
    intro call member tmp _ field isField
    obtain rfl := List.mem_singleton.mp member
    obtain rfl : field = (Field.new .string).setString text := List.mem_singleton.mp isField
    change (UInt32.ofNat text.length).toNat < 2147483648
    rw [cut]
    decide
  have output : outputsOf [textTemplate] [] [textCall text] =
      [(textTemplate.setIndex 0).header 0 ++ (hostUint32 fullMap ++ writeVarint32 0)] := by
    have written : stringBytes text = writeVarint32 0 := by simp [stringBytes, cut]
    have isFull : outputsOf [textTemplate] [] [textCall text] =
        [(textTemplate.setIndex 0).header 0 ++ (hostUint32 fullMap ++ (stringBytes text ++ []))] :=
      rfl
    rw [isFull, written, List.append_nil]
  obtain ⟨encoder, encoded, _⟩ := (EncoderFollows.fresh few).run few wellTyped_textTemplate fits
  have agrees := claimed [textTemplate] [textCall text] few wellTyped_textTemplate fits encoder _
    (encoded.1 writable)
  have small : ∀ buffer ∈ [((textTemplate.setIndex 0).header 0 ++
      (hostUint32 fullMap ++ writeVarint32 0), (fun _ => 0 : Memory))],
      buffer.1.length < 2147483648 := by
    rintro _ (_ | ⟨_, ⟨⟩⟩)
    decide
  obtain ⟨decoder, feeds, slots⟩ := agrees [(_, fun _ => 0)] output.symm small
  obtain ⟨other, otherFeeds, follows⟩ := (DecoderFollows.fresh few).feeds few
    wellTyped_textTemplate [(_, fun _ => 0)] fits output.symm small
    (fewTokens_of_small (by rw [List.nil_append, output]; decide))
  obtain rfl := feeds.unique otherFeeds
  obtain ⟨_, decoderArray, slot⟩ := slots 1 (textTemplate.setIndex 0) rfl
  obtain ⟨array, array_eq, tracks⟩ := follows.tables 1 (textTemplate.setIndex 0) rfl
  rw [slot.decoderArray_eq, Option.some_inj] at array_eq
  subst array_eq
  have seen : (tokensSeen ([] ++ [textCall text]) 1)[0]? = some [65] := rfl
  obtain ⟨_, snapshot, message, _, stored, last, _, view⟩ := slot.agree 0 [65] seen
  obtain ⟨snapshot', message', stored', last', holds⟩ := tracks.snapshots 0 [65] seen
  have isMessage : message = (textCall text).message := (Option.some_inj.mp last).symm
  have isMessage' : message' = (textCall text).message := (Option.some_inj.mp last').symm
  obtain rfl : snapshot = snapshot' := by simpa using stored.symm.trans stored'
  have read := (congrArg Prod.snd view).symm.trans holds.values
  rw [isMessage, isMessage', values] at read
  simp only [Message.view, values, List.map_cons, image, List.map_nil, List.cons.injEq,
    FieldValue.text.injEq, and_true] at read
  rw [read] at huge
  simp at huge

end FlashForwarder
