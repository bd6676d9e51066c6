import FlashForwarder.Compressor.FailedDecode
import FlashForwarder.Compressor.SnapshotAgreement

/-!
# Decoders that can go on

A decoder can go on from wherever it is as long as no entry of its tables is null and every snapshot
has the fields of its template.  Whatever bytes it is fed with, it stays so if no index skips ahead.
-/

namespace FlashForwarder

open WireFormat ProgramLoop Traced

/-- An entry that is not null, and has the fields of the template. -/
def Fitting (tmp : Template) (entry : Option Message) : Prop :=
  ∃ snapshot : Message, entry = some snapshot ∧ snapshot.Fits tmp.instructions

/-- A decoder whose snapshots are as the templates say, wherever they come from. -/
structure Context.Whole (added : List Template) (decoder : Context) : Prop where
  /-- The set of templates is as it was. -/
  templates : decoder.templates = Templates.ofList added
  /-- No entry is null. -/
  tables : ∀ id tmp, (Templates.ofList added).getTemplate id = some tmp →
    ∃ array : SnapShotCacheArray, decoder.templateCacheArrays[tmp.index.toNat]? = some array ∧
      ∀ entry ∈ array, Fitting tmp entry

/-! ## One message -/

section

variable {memory : Memory} {buffer : Int} {size : UInt64} {cacheMessage : Message}
  {pMap : UInt32}

theorem Message.fieldCount_of_modifyField {message updated : Message} {index : UInt16}
    {change : Field → Field} (modified : message.modifyField index change = some updated) :
    updated.fieldCount = message.fieldCount := by
  obtain ⟨field, found, rfl⟩ := Option.map_eq_some_iff.mp modified
  rfl

theorem Changed.fieldCount {index : UInt16} {change : Option (Field → Field)}
    {decoded : FieldDecoded} (changed : Changed cacheMessage index change decoded) :
    decoded.cacheMessage.fieldCount = cacheMessage.fieldCount := by
  cases change with
  | none => exact congrArg Message.fieldCount changed
  | some change => exact Message.fieldCount_of_modifyField changed

theorem Template.decodeFields_fieldCount (instructions : List FieldInstruction)
    (cursor : Template.Cursor) :
    Safe (fun _ => True)
      (fun decoded => decoded.cacheMessage.fieldCount = cursor.cacheMessage.fieldCount)
      (decodeFields memory pMap instructions cursor) := by
  induction instructions generalizing cursor with
  | nil => exact Safe.pure rfl
  | cons instruction instructions ih =>
      unfold decodeFields
      split
      · exact Safe.bind (Safe.emit trivial) fun _ _ => Safe.pure rfl
      · refine Safe.bind instruction.decode_changed fun field changed => ?_
        split
        · exact Safe.pure changed.fieldCount
        · refine Safe.bind (Safe.emit trivial) fun _ _ => ?_
          exact (ih _).mono (fun _ _ => trivial) fun _ later => later.trans changed.fieldCount

theorem Template.decode_fieldCount (tmp : Template) (messages : List Message) :
    Safe (fun _ => True) (fun decoded => decoded.cacheMessage.fieldCount = cacheMessage.fieldCount)
      (tmp.decode memory buffer size messages cacheMessage) := by
  unfold Template.decode
  split
  · exact Safe.pure rfl
  · refine Safe.bind (Safe.emit trivial) fun _ _ => ?_
    refine Safe.bind (Safe.emit trivial) fun _ _ => ?_
    refine Safe.bind (Safe.ofOption fun _ _ => trivial) fun _ _ => ?_
    exact Safe.bind (decodeFields_fieldCount _ _) fun _ same => Safe.pure same

/-- A snapshot keeps the fields it had, whatever bytes there are. -/
theorem Template.decode_fits {instructions : List FieldInstruction}
    (fits : cacheMessage.Fits instructions) (tmp : Template) (messages : List Message) :
    Safe (fun _ => True) (fun decoded => decoded.cacheMessage.Fits instructions)
      (tmp.decode memory buffer size messages cacheMessage) := by
  refine ⟨fun _ _ => trivial, fun decoded outcome => ?_⟩
  have types := (Template.decode_types tmp messages).2 decoded outcome
  have count := (Template.decode_fieldCount tmp messages).2 decoded outcome
  have length : decoded.cacheMessage.fields.length = cacheMessage.fields.length := by
    simpa [Message.types] using congrArg List.length types
  exact ⟨types.trans fits.types, by rw [Message.Counted, count, length]; exact fits.counted⟩

end

namespace Context

variable {added : List Template} {decoder : Context}

theorem Whole.fresh (few : added.length ≤ 255) :
    (Context.new (Templates.ofList added)).Whole added where
  templates := rfl
  tables id tmp found := by
    have bound := Templates.index_lt_count few found
    exact ⟨[], by simp [Context.new, bound], by simp⟩

theorem Whole.replace (few : added.length ≤ 255) (whole : decoder.Whole added) {id : UInt32}
    {tmp : Template} (found : (Templates.ofList added).getTemplate id = some tmp)
    {array : SnapShotCacheArray} (fit : ∀ entry ∈ array, Fitting tmp entry) :
    Whole added
      { decoder with
        templateCacheArrays := decoder.templateCacheArrays.set tmp.index.toNat array } := by
  refine ⟨whole.templates, fun other tmp' found' => ?_⟩
  obtain ⟨old, old_eq, oldFit⟩ := whole.tables other tmp' found'
  by_cases same : id = other
  · subst same
    obtain rfl := Option.some_inj.mp (found.symm.trans found')
    exact ⟨array, List.getElem?_set_self (List.getElem?_eq_some_iff.mp old_eq).1, fit⟩
  · exact ⟨old, by rw [List.getElem?_set_ne (index_ne_of_ne few found found' same), old_eq], oldFit⟩

/-- A message at an announced index leaves a decoder whole. -/
theorem Whole.decodeMessage (few : added.length ≤ 255) (typed : ∀ tmp ∈ added, tmp.WellTyped)
    {memory : Memory} {cursor : Cursor} (whole : cursor.context.Whole added) {id : UInt32}
    {tmp : Template} {cacheIndex : UInt64}
    (found : (Templates.ofList added).getTemplate id = some tmp)
    (announced : ∀ array, cursor.context.templateCacheArrays[tmp.index.toNat]? = some array →
      cacheIndex.toNat ≤ array.length ∧ cacheIndex.toNat < 2 ^ 64 - 1) :
    Safe (fun _ => True) (Keeps (fun next : Cursor => next.context.Whole added)
      fun result : Decoded => result.context.Whole added)
      (Context.decodeMessage memory cursor tmp cacheIndex) := by
  have wellTyped := Templates.wellTyped_of_getTemplate typed found
  obtain ⟨known, known_eq, fit⟩ := whole.tables id tmp found
  refine Safe.bind (Safe.ofOption fun array slot => slot) fun array slot => ?_
  obtain rfl := Option.some_inj.mp (known_eq.symm.trans slot)
  obtain ⟨inside, bounded⟩ := announced known slot
  have selects := selectSnapshot_usable fit (fun message isMessage =>
    wellTyped.reset_fits isMessage cacheIndex) inside bounded
  refine Safe.bind (selects.mono (fun _ _ => trivial) fun _ usable => usable) ?_
  rintro (_ | ⟨grown, cacheMessage⟩) usable
  · exact Safe.pure whole
  · obtain ⟨_, fits, stored⟩ := usable _ rfl
    refine Safe.bind (Template.decode_fits fits tmp cursor.messages) fun decoded kept => ?_
    have after := whole.replace few found (stored _ kept)
    dsimp only
    split
    · exact Safe.pure after
    · exact Safe.bind (Safe.emit trivial) fun _ _ => Safe.pure after

/-- A pass with an announced index leaves a decoder whole. -/
theorem Whole.decodePass (few : added.length ≤ 255) (typed : ∀ tmp ∈ added, tmp.WellTyped)
    {memory : Memory} {end_ : Int} {cursor : Cursor} (whole : cursor.context.Whole added)
    (announced : Announced memory end_ cursor) :
    Safe (fun _ => True) (Keeps (fun next : Cursor => next.context.Whole added)
      fun result : Decoded => result.context.Whole added)
      (Context.decodePass memory end_ cursor) := by
  refine ⟨fun _ _ => trivial, fun pass outcome => ?_⟩
  by_cases before : cursor.begin_ ≤ end_
  · rw [outcome_decodePass before] at outcome
    cases named : header memory cursor with
    | none =>
        rw [named] at outcome
        obtain rfl := Option.some_inj.mp outcome
        exact whole
    | some found =>
        obtain ⟨tmp, cacheIndex⟩ := found
        rw [named] at outcome
        obtain ⟨id, known⟩ := getTemplate_of_header named
        rw [whole.templates] at known
        have behind : (behindHeader memory cursor).context.Whole added := whole
        exact (behind.decodeMessage few typed known fun array slot =>
          announced before tmp cacheIndex array named slot).2 pass outcome
  · rw [decodePass_of_past before] at outcome
    obtain rfl := Option.some_inj.mp outcome
    exact whole

/-- Whatever a decoder is fed with, it stays whole as long as no index skips ahead. -/
theorem Whole.feeds (few : added.length ≤ 255) (typed : ∀ tmp ∈ added, tmp.WellTyped)
    {fed : List (List UInt8 × Memory)} {decoder final : Context} (whole : decoder.Whole added)
    (announced : AllAnnounced decoder fed) (feeds : FeedsAll decoder fed final) :
    final.Whole added := by
  induction fed generalizing decoder with
  | nil => exact feeds ▸ whole
  | cons head fed ih =>
      obtain ⟨buffer, outside⟩ := head
      obtain ⟨result, decoded, rest⟩ := feeds
      obtain ⟨here, later⟩ := announced []
      obtain ⟨fuel, returned⟩ := decodes_iff.mp decoded
      have left : Safe (fun _ => True) (fun result : Decoded => result.context.Whole added)
          (loop (passes buffer outside) fuel (decoder.start (UInt64.ofNat buffer.length) [])) :=
        Safe.loop (fun next reached kept => Whole.decodePass few typed kept (here next reached))
          fuel whole
      exact ih (left.2 result returned) (later result decoded) rest

end Context

end FlashForwarder
