import FlashForwarder.Compressor.LateJoin
import FlashForwarder.Compressor.WholeDecoder
import Mathlib.Data.List.Forall2

/-!
# Encoders that start anew

An encoder that is started anew gives its tokens the places from 0 on, and announces each with a
message in full.  A decoder need not be reset for that: whatever snapshots it still has, those of
the new encoder take their places before they are used.
-/

namespace FlashForwarder

open WireFormat ProgramLoop FieldInstruction

/-- A decoder fed with the output of the calls of `history`, whatever it was fed with before.
Behind the snapshots of `history` there may be others left, of the templates' fields. -/
structure StaleFollows (added : List Template) (history : List Call) (decoder : Context) :
    Prop where
  /-- The set of templates is as it was. -/
  templates : decoder.templates = Templates.ofList added
  /-- Snapshots are at the places of their tokens, and none is null. -/
  tables : ∀ id tmp, (Templates.ofList added).getTemplate id = some tmp →
    ∃ array stale : SnapShotCacheArray,
      decoder.templateCacheArrays[tmp.index.toNat]? = some (array ++ stale) ∧
        Tracks (DecoderHolds tmp) history id array ∧
        ∀ entry ∈ stale, Fitting tmp entry

namespace StaleFollows

variable {added : List Template} {history : List Call} {decoder : Context} {call : Call}

theorem whole (follows : StaleFollows added history decoder) : decoder.Whole added := by
  refine ⟨follows.templates, fun id tmp found => ?_⟩
  obtain ⟨array, stale, array_eq, tracks, fit⟩ := follows.tables id tmp found
  refine ⟨array ++ stale, array_eq, fun entry member => ?_⟩
  rcases List.mem_append.mp member with known | left
  · obtain ⟨place, at_⟩ := List.mem_iff_getElem?.mp known
    have inside := (List.getElem?_eq_some_iff.mp at_).1
    rw [tracks.length_eq] at inside
    obtain ⟨snapshot, message, stored, -, held⟩ :=
      tracks.snapshots place _ (List.getElem?_eq_getElem inside)
    rw [at_, Option.some_inj] at stored
    exact ⟨snapshot, stored, held.fits⟩
  · exact fit entry left

/-- When the encoder starts anew, all snapshots are left from before. -/
theorem restart (whole : decoder.Whole added) : StaleFollows added [] decoder := by
  refine ⟨whole.templates, fun id tmp found => ?_⟩
  obtain ⟨array, array_eq, fit⟩ := whole.tables id tmp found
  exact ⟨[], array, array_eq, .nil id, fit⟩

/-- A call for an unknown template puts nothing on the wire. -/
theorem skip (follows : StaleFollows added history decoder)
    (unknown : (Templates.ofList added).getTemplate call.templateID = none) :
    StaleFollows added (history ++ [call]) decoder := by
  refine ⟨follows.templates, fun id tmp found => ?_⟩
  obtain ⟨array, stale, array_eq, tracks, fit⟩ := follows.tables id tmp found
  refine ⟨array, stale, array_eq, tracks.skip ?_, fit⟩
  rintro rfl
  simp [unknown] at found

/-- The table of the call's template changes, the others do not. -/
theorem replace (few : added.length ≤ 255) (follows : StaleFollows added history decoder)
    {tmp : Template} (found : (Templates.ofList added).getTemplate call.templateID = some tmp)
    {array stale : SnapShotCacheArray}
    (tracks : Tracks (DecoderHolds tmp) (history ++ [call]) call.templateID array)
    (fit : ∀ entry ∈ stale, Fitting tmp entry) :
    StaleFollows added (history ++ [call])
      { decoder with
        templateCacheArrays :=
          decoder.templateCacheArrays.set tmp.index.toNat (array ++ stale) } := by
  refine ⟨follows.templates, fun id tmp' found' => ?_⟩
  obtain ⟨old, oldStale, oldArray, oldTracks, oldFit⟩ := follows.tables id tmp' found'
  by_cases same : call.templateID = id
  · subst same
    rw [found, Option.some_inj] at found'
    subst found'
    exact ⟨array, stale, List.getElem?_set_self (List.getElem?_eq_some_iff.mp oldArray).1,
      tracks, fit⟩
  · refine ⟨old, oldStale, ?_, oldTracks.skip same, oldFit⟩
    rw [List.getElem?_set_ne (index_ne_of_ne few found found' same), oldArray]

/-- What is at the place of a new token: nothing yet, or a snapshot that is left from before. -/
theorem selects_new {tmp : Template} (typed : tmp.WellTyped) {array stale : SnapShotCacheArray}
    (fit : ∀ entry ∈ stale, Fitting tmp entry)
    {cacheIndex : UInt64} (next : cacheIndex.toNat = array.length)
    (bounded : cacheIndex.toNat < Context.maxSize) :
    ∃ (grown rest : SnapShotCacheArray) (cacheMessage : Message),
      Context.Selects tmp (array ++ stale) cacheIndex grown cacheMessage ∧
        cacheMessage.Fits tmp.instructions ∧
        (∀ updated, grown.set cacheIndex.toNat (some updated) =
          array ++ [some updated] ++ rest) ∧ ∀ entry ∈ rest, entry ∈ stale := by
  cases stale with
  | nil =>
      obtain ⟨default, isDefault, _⟩ := typed.default
      refine ⟨_, [], _, Or.inr ⟨rfl, by simp [next], bounded, default, isDefault, rfl⟩,
        typed.reset_fits isDefault cacheIndex, fun updated => ?_, by simp⟩
      rw [List.append_nil, next, Nat.sub_self]
      simp
  | cons entry rest =>
      obtain ⟨snapshot, rfl, fits⟩ := fit entry (List.mem_cons_self ..)
      refine ⟨_, rest, snapshot, Or.inl ⟨rfl, ?_⟩, fits, fun updated => ?_,
        fun later member => List.mem_cons_of_mem _ member⟩
      · rw [next, List.getElem?_append_right (Nat.le_refl _), Nat.sub_self]
        rfl
      · rw [next, List.set_append_right _ _ (Nat.le_refl _), Nat.sub_self]
        simp

/-- One pass over the bytes of a call puts out one message. -/
theorem step (few : added.length ≤ 255) (typed : ∀ tmp ∈ added, tmp.WellTyped)
    (follows : StaleFollows added history decoder) {tmp : Template}
    (found : (Templates.ofList added).getTemplate call.templateID = some tmp)
    (fits : call.message.Fits tmp.instructions)
    (countable : (tokensSeen (history ++ [call]) call.templateID).length ≤ Context.maxSize)
    {memory : Memory} (end_ : Int) (cursor : Context.Cursor) (context : cursor.context = decoder)
    (before : cursor.begin_ ≤ end_)
    (held : memory.Holds cursor.begin_ (wireBytes tmp history call))
    (room : (wireBytes tmp history call).length ≤ cursor.size.toNat)
    (small : cursor.size.toNat < 2147483648) :
    ∃ (filled : Message) (size : UInt64) (decoder' : Context), filled.Fits tmp.instructions ∧
      filled.values = deliveredValues tmp.instructions
        (lastMessage history call.templateID call.token) call.message ∧
      size.toNat = cursor.size.toNat - (wireBytes tmp history call).length ∧
      (Context.decodePass memory end_ cursor).outcome = some (.again
        { begin_ := cursor.begin_ + (wireBytes tmp history call).length
          size := size
          messages := cursor.messages ++ [filled]
          context := decoder' }) ∧
      StaleFollows added (history ++ [call]) decoder' := by
  subst context
  have wellTyped := Templates.wellTyped_of_getTemplate typed found
  obtain ⟨_, _, _, _, sameId⟩ := Templates.getTemplate_ofList found
  obtain ⟨array, stale, array_eq, tracks, fit⟩ := follows.tables _ _ found
  have known : cursor.context.templates.getTemplate tmp.id = some tmp := by
    rw [follows.templates, sameId, found]
  have length_eq := tracks.length_eq
  have exact_ : ∀ place, place < Context.maxSize → (UInt64.ofNat place).toNat = place :=
      fun place bound => by
    rw [UInt64.toNat_ofNat', Nat.mod_eq_of_lt (bound.trans Context.maxSize_lt)]
  rw [tokensSeen_concat, enterToken] at countable
  by_cases seen : call.token ∈ tokensSeen history call.templateID
  · obtain ⟨snapshot, previous, stored, last, cached⟩ := tracks.of_mem seen
    have bound := List.idxOf_lt_length_of_mem seen
    rw [if_neg (by simp [seen])] at countable
    have place := exact_ ((tokensSeen history call.templateID).idxOf call.token) (by omega)
    have inside : (tokensSeen history call.templateID).idxOf call.token < array.length := by omega
    simp only [wireBytes, last, Template.wire] at held room ⊢
    obtain ⟨present, partial_⟩ := wellTyped.present previous.values call.message.values
    have exchanges := exchangesAll_wire (defaults tmp.instructions) wellTyped.sound present
      partial_ cached.messageFits.admitAll fits.admitAll (by simp [defaults])
    obtain ⟨filled, updated, size, filledFits, filledValues, updatedFits, updatedValues, left,
      outcome⟩ := Context.decodePass_spec wellTyped before known array_eq
        (Or.inl ⟨rfl, by rw [place, List.getElem?_append_left inside, stored]⟩) cached.fits
        cached.values exchanges held room small
    refine ⟨filled, size, _, filledFits, filledValues, left, outcome, ?_⟩
    rw [place, List.set_append_left _ _ inside]
    exact follows.replace few found (tracks.renew seen ⟨updatedFits, fits, updatedValues⟩) fit
  · have last := lastMessage_eq_none_iff.mpr seen
    rw [if_pos ⟨rfl, seen⟩, List.length_append, List.length_singleton] at countable
    have place := exact_ (tokensSeen history call.templateID).length (by omega)
    simp only [wireBytes, last, Template.full] at held room ⊢
    obtain ⟨grown, rest, cacheMessage, selects, cacheFits, set_eq, fewer⟩ :=
      selects_new wellTyped fit (by rw [place, length_eq]) (by rw [place]; omega)
    have exchanges := exchangesAll_full (defaults tmp.instructions) fits.admitAll
      (by simp [defaults]) cacheFits.length_values
    obtain ⟨filled, updated, size, filledFits, filledValues, updatedFits, updatedValues, left,
      outcome⟩ := Context.decodePass_spec wellTyped before known array_eq selects cacheFits rfl
        exchanges held room small
    refine ⟨filled, size, _, filledFits, filledValues, left, outcome, ?_⟩
    rw [set_eq updated]
    exact follows.replace few found (tracks.enter seen _ ⟨updatedFits, fits, updatedValues⟩)
      fun entry member => fit entry (fewer entry member)

section

variable (few : added.length ≤ 255) (typed : ∀ tmp ∈ added, tmp.WellTyped)

include few typed

/-- One loop over the output of successive calls reads one message for each. -/
theorem run {memory : Memory} (end_ : Int) {calls history : List Call} (cursor : Context.Cursor)
    (follows : StaleFollows added history cursor.context) (fits : ∀ call ∈ calls, call.Fits added)
    (countable : FewTokens added (history ++ calls))
    (held : memory.Holds cursor.begin_ (outputsOf added history calls).flatten)
    (size : cursor.size.toNat = (outputsOf added history calls).flatten.length)
    (last : end_ = cursor.begin_ + (outputsOf added history calls).flatten.length - 1)
    (small : cursor.size.toNat < 2147483648) :
    ∃ result, Traced.Returns (Context.decodePass memory end_) cursor result ∧
      result.messages.map Message.view =
        cursor.messages.map Message.view ++ deliveredAll added history calls ∧
      StaleFollows added (history ++ calls) result.context := by
  induction calls generalizing history cursor with
  | nil =>
      refine ⟨⟨cursor.messages, cursor.context⟩, .of_leave ?_, by simp [deliveredAll],
        by simpa using follows⟩
      have ended : ¬cursor.begin_ ≤ end_ := by
        simp only [outputsOf, List.flatten_nil, List.length_nil] at last
        omega
      simp [Context.decodePass, ended, Context.Cursor.stop]
  | cons call calls ih =>
      have restFits : ∀ call ∈ calls, call.Fits added :=
        fun other member => fits other (by simp [member])
      have restCountable : FewTokens added ((history ++ [call]) ++ calls) := by
        simpa using countable
      cases found : (Templates.ofList added).getTemplate call.templateID with
      | none =>
          have silent : (outputsOf added history (call :: calls)).flatten =
              (outputsOf added (history ++ [call]) calls).flatten := by
            simp [outputsOf, outputOf, found]
          simp only [silent] at held size last
          obtain ⟨result, returned, views, final⟩ :=
            ih _ (follows.skip found) restFits restCountable held size last small
          exact ⟨result, returned, by simpa [deliveredAll, found] using views, by simpa using final⟩
      | some tmp =>
          have nonempty := List.length_pos_of_ne_nil (wireBytes_ne_nil tmp history call)
          have output : (outputsOf added history (call :: calls)).flatten =
              wireBytes tmp history call ++
                (outputsOf added (history ++ [call]) calls).flatten := by
            simp [outputsOf, outputOf, found]
          simp only [output, List.length_append] at held size last
          obtain ⟨here, behind⟩ := Memory.holds_append.mp held
          have callFits := fits call (by simp) tmp found
          obtain ⟨filled, left, decoder, filledFits, filledValues, leftSize, passed, next⟩ :=
            follows.step few typed found callFits (restCountable.front _ _ found) end_ cursor rfl
              (by omega) here (by omega) small
          obtain ⟨result, returned, views, final⟩ := ih
            ⟨cursor.begin_ + (wireBytes tmp history call).length, left,
              cursor.messages ++ [filled], decoder⟩ next restFits restCountable behind
            (by simp only; omega) (by simp only; omega) (by simp only; omega)
          refine ⟨result, (Traced.returns_iff_of_again passed).mpr returned, ?_,
            by simpa using final⟩
          have view : filled.view = (call.message.types, deliveredValues tmp.instructions
              (lastMessage history call.templateID call.token) call.message) := by
            rw [Message.view, filledFits.types, callFits.types, filledValues]
          rw [views]
          simp [deliveredAll, found, view]

/-- A buffer with the output of successive calls is decoded to one message for each. -/
theorem decodes (calls : List Call) {history : List Call} {decoder : Context}
    (follows : StaleFollows added history decoder) (fits : ∀ call ∈ calls, call.Fits added)
    (countable : FewTokens added (history ++ calls)) (outside : Memory)
    (small : (outputsOf added history calls).flatten.length < 2147483648) :
    ∃ result, decoder.Decodes (Memory.ofBuffer (outputsOf added history calls).flatten outside)
        (UInt64.ofNat (outputsOf added history calls).flatten.length) [] result ∧
      result.messages.map Message.view = deliveredAll added history calls ∧
      StaleFollows added (history ++ calls) result.context := by
  have size : (UInt64.ofNat (outputsOf added history calls).flatten.length).toNat =
      (outputsOf added history calls).flatten.length := by
    rw [UInt64.toNat_ofNat', Nat.mod_eq_of_lt (by omega)]
  have held := Memory.holds_ofBuffer (outputsOf added history calls).flatten outside
  obtain ⟨result, returned, views, final⟩ := run few typed
    ((UInt64.ofNat (outputsOf added history calls).flatten.length).toNat - 1)
    (decoder.start (UInt64.ofNat (outputsOf added history calls).flatten.length) [])
    follows fits countable held size (by rw [size]; simp [Context.start])
    (by rw [Context.start, size]; exact small)
  exact ⟨result, Context.decodes_iff.mpr returned, by simpa [Context.start] using views, final⟩

end

end StaleFollows

/-! ## Sessions -/

/-- Each session is encoded by a context of its own over the same templates. -/
def EncodesSessions (templates : Templates) (sessions : List (List (List Call)))
    (buffers : List (List (List UInt8))) : Prop :=
  List.Forall₂ (fun session outputs => ∃ encoder,
    encodeBatches (Context.new templates) session = some (encoder, outputs)) sessions buffers

/-- What a decoder makes of successive batches. -/
def deliveredBatches (added : List Template) :
    List Call → List (List Call) → List (List (List FieldType × List FieldValue))
  | _, [] => []
  | history, batch :: batches =>
      deliveredAll added history batch :: deliveredBatches added (history ++ batch) batches

/-- Each batch comes back as it was encoded just if all of them together do. -/
theorem deliveredBatches_eq_iff {added : List Template} {batches : List (List Call)}
    (history : List Call) (past : ∀ call ∈ history, call.Fits added)
    (fits : ∀ call ∈ batches.flatten, call.Fits added) :
    deliveredBatches added history batches = batches.map (encodedViews added) ↔
      RecoverableRun added history batches.flatten := by
  induction batches generalizing history with
  | nil => simp [deliveredBatches, RecoverableRun.nil]
  | cons batch batches ih =>
      simp only [List.flatten_cons, List.mem_append, or_imp, forall_and] at fits
      have extended : ∀ call ∈ history ++ batch, call.Fits added := by
        simp only [List.mem_append, or_imp, forall_and]
        exact ⟨past, fits.1⟩
      rw [deliveredBatches, List.map_cons, List.cons.injEq, deliveredAll_eq_iff _ past fits.1,
        ih _ extended fits.2, List.flatten_cons, recoverableRun_append]

theorem length_deliveredBatches (added : List Template) (history : List Call)
    (batches : List (List Call)) :
    (deliveredBatches added history batches).length = batches.length := by
  induction batches generalizing history with
  | nil => rfl
  | cons batch batches ih => simp [deliveredBatches, ih]

section

variable {added : List Template} (few : added.length ≤ 255)
  (typed : ∀ tmp ∈ added, tmp.WellTyped)

include few typed

/-- A decoder goes through a session, and then through whatever it can go through from there. -/
theorem StaleFollows.putsOut {batches : List (List Call)} {history : List Call}
    {decoder : Context} {fed later : List (List UInt8 × Memory)}
    {views : List (List (List FieldType × List FieldValue))} {good : Context → Prop}
    (follows : StaleFollows added history decoder)
    (fits : ∀ call ∈ batches.flatten, call.Fits added)
    (countable : FewTokens added (history ++ batches.flatten))
    (buffers : fed.map Prod.fst = buffersOf added history batches)
    (small : ∀ buffer ∈ fed, buffer.1.length < 2147483648)
    (goesOn : ∀ next, StaleFollows added (history ++ batches.flatten) next →
      ∃ puts final, PutsOut next later puts ∧ FeedsAll next later final ∧ good final ∧
        puts.map (List.map Message.view) = views) :
    ∃ puts final, PutsOut decoder (fed ++ later) puts ∧ FeedsAll decoder (fed ++ later) final ∧
      good final ∧ puts.map (List.map Message.view) =
        deliveredBatches added history batches ++ views := by
  induction batches generalizing history decoder fed with
  | nil =>
      obtain rfl : fed = [] := by simpa [buffersOf] using buffers
      exact goesOn decoder (by simpa using follows)
  | cons batch batches ih =>
      obtain _ | ⟨⟨buffer, outside⟩, fed⟩ := fed
      · simp [buffersOf] at buffers
      simp only [buffersOf, List.map_cons, List.cons.injEq] at buffers
      obtain ⟨rfl, buffers⟩ := buffers
      simp only [List.flatten_cons, List.mem_append, or_imp, forall_and] at fits countable
      rw [← List.append_assoc] at countable
      obtain ⟨result, decoded, here, next⟩ := follows.decodes few typed batch fits.1
        countable.front outside (small _ (List.mem_cons_self ..))
      obtain ⟨puts, final, putsRest, feedsRest, left, rest⟩ := ih next fits.2 countable buffers
        (fun other member => small other (by simp [member])) (by simpa using goesOn)
      exact ⟨result.messages :: puts, final, ⟨result, puts, decoded, putsRest, rfl⟩,
        ⟨result, decoded, feedsRest⟩, left, by simp [deliveredBatches, here, rest]⟩

/-- A decoder goes through one session after the other. -/
theorem Context.Whole.putsOut {sessions : List (List (List Call))} {decoder : Context}
    {feds : List (List (List UInt8 × Memory))} (whole : decoder.Whole added)
    (fits : ∀ session ∈ sessions, ∀ call ∈ session.flatten, call.Fits added)
    (countable : ∀ session ∈ sessions, FewTokens added session.flatten)
    (buffers : feds.map (List.map Prod.fst) = sessions.map (buffersOf added []))
    (small : ∀ fed ∈ feds, ∀ buffer ∈ fed, buffer.1.length < 2147483648) :
    ∃ puts final, PutsOut decoder feds.flatten puts ∧ FeedsAll decoder feds.flatten final ∧
      final.Whole added ∧ puts.map (List.map Message.view) =
        sessions.flatMap (deliveredBatches added []) := by
  induction sessions generalizing decoder feds with
  | nil =>
      obtain rfl : feds = [] := by simpa using buffers
      exact ⟨[], decoder, rfl, rfl, whole, rfl⟩
  | cons session sessions ih =>
      obtain _ | ⟨fed, feds⟩ := feds
      · simp at buffers
      simp only [List.map_cons, List.cons.injEq] at buffers
      rw [List.forall_mem_cons] at fits countable small
      rw [List.flatten_cons, List.flatMap_cons]
      exact (StaleFollows.restart whole).putsOut few typed fits.1 (by simpa using countable.1)
        buffers.1 small.1 fun next follows => ih follows.whole fits.2 countable.2 buffers.2 small.2

/-- A sequence of sessions can be encoded if the strings can be written, and the buffers are
determined. -/
theorem encodesSessions_iff {sessions : List (List (List Call))}
    {buffers : List (List (List UInt8))}
    (fits : ∀ session ∈ sessions, ∀ call ∈ session.flatten, call.Fits added) :
    EncodesSessions (Templates.ofList added) sessions buffers ↔
      (∀ session ∈ sessions, ∀ call ∈ session.flatten, call.Writable added) ∧
        buffers = sessions.map (buffersOf added []) := by
  induction sessions generalizing buffers with
  | nil => simp [EncodesSessions]
  | cons session sessions ih =>
      rw [List.forall_mem_cons] at fits
      obtain ⟨_, defined⟩ := (EncoderFollows.fresh few).runBatches few typed fits.1
      rw [EncodesSessions, List.forall₂_cons_left_iff, List.forall_mem_cons, List.map_cons]
      constructor
      · rintro ⟨outputs, rest, ⟨_, encoded⟩, later, rfl⟩
        obtain ⟨writable, pair⟩ := defined.elim encoded
        obtain ⟨writable', same⟩ := (ih fits.2).mp later
        exact ⟨⟨writable, writable'⟩, by rw [(Prod.mk.inj pair).2, same]⟩
      · rintro ⟨⟨writable, writable'⟩, rfl⟩
        exact ⟨_, _, ⟨_, defined.1 writable⟩, (ih fits.2).mpr ⟨writable', rfl⟩, rfl⟩

end

/-- What comes out of a number of sessions is what went into them just if each is recoverable. -/
theorem flatMap_deliveredBatches_eq_iff {added : List Template}
    {sessions : List (List (List Call))}
    (fits : ∀ session ∈ sessions, ∀ call ∈ session.flatten, call.Fits added) :
    sessions.flatMap (deliveredBatches added []) =
        sessions.flatMap (List.map (encodedViews added)) ↔
      ∀ session ∈ sessions, RecoverableRun added [] session.flatten := by
  induction sessions with
  | nil => simp
  | cons session sessions ih =>
      rw [List.forall_mem_cons] at fits ⊢
      rw [← deliveredBatches_eq_iff [] (by simp) fits.1, ← ih fits.2, List.flatMap_cons,
        List.flatMap_cons]
      constructor
      · intro same
        exact List.append_inj same (by rw [length_deliveredBatches, List.length_map])
      · rintro ⟨here, later⟩
        rw [here, later]

/-! ## Results -/

/-- An encoder may be started anew any number of times, and the decoder goes on: whatever it was fed
with before, as long as no index skipped ahead, the sessions come back as they were encoded just if
each is recoverable by itself; and then it is where it may go on from again. -/
theorem sessions_decoded {added : List Template} (sessions : List (List (List Call)))
    (few : added.length ≤ 255) (typed : ∀ tmp ∈ added, tmp.WellTyped)
    (fits : ∀ session ∈ sessions, ∀ call ∈ session.flatten, call.Fits added)
    (countable : ∀ session ∈ sessions, FewTokens added session.flatten) :
    ((∃ buffers, EncodesSessions (Templates.ofList added) sessions buffers) ↔
      ∀ session ∈ sessions, ∀ call ∈ session.flatten, call.Writable added) ∧
    ∀ buffers, EncodesSessions (Templates.ofList added) sessions buffers →
      ∀ (start decoder : Context) (past : List (List UInt8 × Memory)), start.Whole added →
        Context.AllAnnounced start past → FeedsAll start past decoder →
        ∀ feds : List (List (List UInt8 × Memory)), feds.map (List.map Prod.fst) = buffers →
          (∀ fed ∈ feds, ∀ buffer ∈ fed, buffer.1.length < 2147483648) →
          ∃ puts final, PutsOut decoder feds.flatten puts ∧ FeedsAll decoder feds.flatten final ∧
            final.Whole added ∧
            (puts.map (List.map Message.view) =
                sessions.flatMap (List.map (encodedViews added)) ↔
              ∀ session ∈ sessions, RecoverableRun added [] session.flatten) := by
  refine ⟨by simp [encodesSessions_iff few typed fits], fun buffers encoded start decoder past
    whole announced fed feds same small => ?_⟩
  rw [((encodesSessions_iff few typed fits).mp encoded).2] at same
  obtain ⟨puts, final, putsOut, feeds, left, views⟩ :=
    (whole.feeds few typed announced fed).putsOut few typed fits countable same small
  exact ⟨puts, final, putsOut, feeds, left, by rw [views, flatMap_deliveredBatches_eq_iff fits]⟩

theorem recoverableRun_prices (calls : List Call) (prices : calls = [priceCall 5] ∨
    calls = [priceCall 5, priceCall 6]) : RecoverableRun [priceTemplate] [] calls := by
  refine (deliveredAll_eq_iff [] (by simp) fun call member => ?_).mp ?_
  · rcases prices with rfl | rfl <;> simp at member
    · exact member ▸ fits_priceCall 5
    · rcases member with rfl | rfl <;> exact fits_priceCall _
  · rcases prices with rfl | rfl <;> decide

/-- One encoder writes a price, and another the same price and one more. -/
theorem sessions_decoded_prices :
    ∃ fed puts, PutsOut (Context.new (Templates.ofList [priceTemplate])) fed puts ∧
      puts.map (List.map Message.view) = [[(priceCall 5).message.view],
        [(priceCall 5).message.view, (priceCall 6).message.view]] := by
  have few : [priceTemplate].length ≤ 255 := by decide
  have countable : ∀ session ∈ [[[priceCall 5]], [[priceCall 5, priceCall 6]]],
      FewTokens [priceTemplate] session.flatten := by
    simp only [List.mem_cons, List.not_mem_nil, or_false, forall_eq_or_imp, forall_eq]
    exact ⟨fewTokens_of_short (by decide), fewTokens_of_short (by decide)⟩
  obtain ⟨encodable, decoded⟩ := sessions_decoded
    [[[priceCall 5]], [[priceCall 5, priceCall 6]]] few wellTyped_priceTemplate
    (by simp [fits_priceCall]) countable
  obtain ⟨buffers, encoded⟩ := encodable.mpr (by simp [writable_priceCall])
  have decodes := decoded buffers encoded
  obtain _ | ⟨⟨_, first⟩, _ | ⟨⟨_, second⟩, _ | _⟩⟩ := encoded
  have known : (encodeBatches (Context.new (Templates.ofList [priceTemplate]))
      [[priceCall 5]]).map Prod.snd = some [[1, 0, 0, 0, 0, 128, 5, 0, 0, 0, 0, 0, 0, 0]] := by
    decide
  have known' : (encodeBatches (Context.new (Templates.ofList [priceTemplate]))
      [[priceCall 5, priceCall 6]]).map Prod.snd =
        some [[1, 0, 0, 0, 0, 128, 5, 0, 0, 0, 0, 0, 0, 0, 1, 0, 1, 0, 0, 0, 12]] := by
    decide
  rw [first] at known
  rw [second] at known'
  obtain rfl := Option.some_inj.mp known
  obtain rfl := Option.some_inj.mp known'
  obtain ⟨puts, -, putsOut, -, -, views⟩ := decodes _ _ [] (Context.Whole.fresh few) trivial rfl
    [[(_, fun _ => 0)], [(_, fun _ => 0)]] rfl (by simp)
  exact ⟨_, puts, putsOut, views.mpr (by simp [recoverableRun_prices])⟩

end FlashForwarder
