import FlashForwarder.Compressor.EncodedStream

/-!
# Joining late

A fresh decoder is fed with what an encoder writes after some messages, in buffers that are cut
between messages.  It has no snapshots of the tokens that were entered before.
-/

namespace FlashForwarder

open WireFormat

/-! ## Batches -/

/-- Encode successive batches of messages, each batch into a buffer of its own. -/
def encodeBatches (context : Context) :
    List (List Call) → Option (Context × List (List UInt8))
  | [] => some (context, [])
  | batch :: batches => do
      let (context, outputs) ← encodeAll context batch
      let (context, buffers) ← encodeBatches context batches
      return (context, outputs.flatten :: buffers)

/-- The buffers of successive batches. -/
def buffersOf (added : List Template) : List Call → List (List Call) → List (List UInt8)
  | _, [] => []
  | history, batch :: batches =>
      (outputsOf added history batch).flatten :: buffersOf added (history ++ batch) batches

/-- Decode successive buffers, each with what surrounds it in memory and into an empty vector. -/
def PutsOut : Context → List (List UInt8 × Memory) → List (List Message) → Prop
  | _, [], puts => puts = []
  | context, (buffer, outside) :: fed, puts =>
      ∃ result rest, context.Decodes (Memory.ofBuffer buffer outside) (UInt64.ofNat buffer.length)
        [] result ∧ PutsOut result.context fed rest ∧ puts = result.messages :: rest

/-- The calls that are not for a token of the past. -/
def independent (past calls : List Call) : List Call :=
  calls.filter fun call => !(tokensSeen past call.templateID).contains call.token

/-- From each buffer come messages that were encoded into it, in their order, and none of them was
encoded against a snapshot of the past. -/
def Joined (added : List Template) (past : List Call) (batches : List (List Call))
    (puts : List (List Message)) : Prop :=
  List.Forall₂ (fun batch messages =>
    (messages.map Message.view).Sublist (encodedViews added (independent past batch)))
    batches puts

theorem RecoverableRun.nil (added : List Template) (history : List Call) :
    RecoverableRun added history [] := by
  intro front call back split
  simp at split

theorem recoverableRun_append {added : List Template} {history front back : List Call} :
    RecoverableRun added history (front ++ back) ↔
      RecoverableRun added history front ∧ RecoverableRun added (history ++ front) back := by
  induction front generalizing history with
  | nil => simp [RecoverableRun.nil]
  | cons call front ih =>
      rw [List.cons_append, recoverableRun_cons, recoverableRun_cons, ih, and_assoc,
        List.append_assoc, List.singleton_append]

theorem apart_append {added : List Template} {past front back : List Call} :
    Apart added past (front ++ back) ↔ Apart added past front ∧ Apart added past back := by
  simp only [Apart, List.mem_append, or_imp, forall_and]

theorem apart_cons {added : List Template} {past calls : List Call} {call : Call} :
    Apart added past (call :: calls) ↔
      (∀ tmp, (Templates.ofList added).getTemplate call.templateID = some tmp →
        call.token ∉ tokensSeen past call.templateID) ∧ Apart added past calls := by
  simp [Apart]

theorem encodedViews_independent_sublist (added : List Template) (past calls : List Call) :
    (encodedViews added (independent past calls)).Sublist (encodedViews added calls) := by
  induction calls with
  | nil => exact List.Sublist.refl _
  | cons call calls ih =>
      unfold independent at ih ⊢
      rw [List.filter_cons]
      cases found : (Templates.ofList added).getTemplate call.templateID with
      | none => split <;> simpa [encodedViews, found] using ih
      | some tmp =>
          split
          · simpa [encodedViews, found] using ih
          · simpa [encodedViews, found] using ih.cons _

/-- No message is left out exactly when no call is for a token of the past. -/
theorem encodedViews_independent_eq_iff {added : List Template} {past calls : List Call} :
    encodedViews added (independent past calls) = encodedViews added calls ↔
      Apart added past calls := by
  induction calls with
  | nil => simp [independent, encodedViews, Apart]
  | cons call calls ih =>
      rw [apart_cons, ← ih]
      unfold independent
      rw [List.filter_cons]
      cases found : (Templates.ofList added).getTemplate call.templateID with
      | none => split <;> simp [encodedViews, found]
      | some tmp =>
          split
          · rename_i unseen
            simpa [encodedViews, found] using fun _ => unseen
          · rename_i seen
            have fewer := (encodedViews_independent_sublist added past calls).length_le
            constructor
            · intro same
              have lengths := congrArg List.length same
              simp only [encodedViews, found, List.length_cons, independent] at lengths fewer
              omega
            · rintro ⟨unseen, _⟩
              simp [unseen tmp] at seen

/-! ## Runs -/

section

variable {added : List Template} (few : added.length ≤ 255)
  (typed : ∀ tmp ∈ added, tmp.WellTyped)

include few typed

/-- A sequence of batches can be encoded if the strings can be written. -/
theorem EncoderFollows.runBatches {batches : List (List Call)} {history : List Call}
    {encoder : Context} (follows : EncoderFollows added history encoder)
    (fits : ∀ call ∈ batches.flatten, call.Fits added) :
    ∃ encoder', DefinedIf (∀ call ∈ batches.flatten, call.Writable added)
      (encodeBatches encoder batches) (encoder', buffersOf added history batches) := by
  induction batches generalizing history encoder with
  | nil => exact ⟨encoder, .of_some rfl (by simp)⟩
  | cons batch batches ih =>
      simp only [List.flatten_cons, List.mem_append, or_imp, forall_and] at fits ⊢
      obtain ⟨next, encoded, following⟩ := follows.run few typed fits.1
      by_cases here : ∀ call ∈ batch, call.Writable added
      · obtain ⟨last, rest⟩ := ih (following here) fits.2
        exact ⟨last, encoded.bind (rest.bind_some rfl)⟩
      · exact ⟨encoder, fun writable => absurd writable.1 here,
          fun _ => by rw [encodeBatches, encoded.2 here]; rfl⟩

/-- A batch that puts out only messages of its own, none of them for a token of the past, has no
call for such a token, and its messages are recoverable. -/
theorem LateFollows.joined_batch {past history batch : List Call} {decoder : Context}
    (follows : LateFollows added past history decoder)
    (earlier : ∀ call ∈ past ++ history, call.Fits added)
    (fits : ∀ call ∈ batch, call.Fits added)
    (countable : FewTokens added (past ++ (history ++ batch))) (outside : Memory)
    (small : (outputsOf added (past ++ history) batch).flatten.length < 2147483648) :
    (∃ result : Context.Decoded, decoder.Decodes
        (Memory.ofBuffer (outputsOf added (past ++ history) batch).flatten outside)
        (UInt64.ofNat (outputsOf added (past ++ history) batch).flatten.length) [] result ∧
      (result.messages.map Message.view).Sublist
        (encodedViews added (independent past batch))) ↔
      Apart added past batch ∧ RecoverableRun added (past ++ history) batch := by
  have returns := fun apart : Apart added past batch =>
    follows.decodes few typed batch apart fits countable outside small
  constructor
  · rintro ⟨result, decoded, part⟩
    have count := (Context.decodes_outputs typed earlier fits (by simpa using countable) small
      follows.templates decoded).1
    have shorter := part.length_le
    rw [List.length_map, count] at shorter
    have whole := (encodedViews_independent_sublist added past batch).eq_of_length_le shorter
    have apart := encodedViews_independent_eq_iff.mp whole
    obtain ⟨other, otherDecoded, views, _⟩ := returns apart
    have same := (Context.decodes_iff.mp decoded).unique (Context.decodes_iff.mp otherDecoded)
    rw [same, whole] at part
    rw [same] at count
    refine ⟨apart, (deliveredAll_eq_iff _ earlier fits).mp ?_⟩
    rw [← views]
    exact part.eq_of_length (by rw [List.length_map, count])
  · rintro ⟨apart, recoverable⟩
    obtain ⟨result, decoded, views, _⟩ := returns apart
    refine ⟨result, decoded, ?_⟩
    rw [views, (deliveredAll_eq_iff _ earlier fits).mpr recoverable,
      encodedViews_independent_eq_iff.mpr apart]

theorem LateFollows.joined_iff {past : List Call} {batches : List (List Call)}
    {history : List Call} {decoder : Context} {fed : List (List UInt8 × Memory)}
    (follows : LateFollows added past history decoder)
    (earlier : ∀ call ∈ past ++ history, call.Fits added)
    (fits : ∀ call ∈ batches.flatten, call.Fits added)
    (countable : FewTokens added (past ++ (history ++ batches.flatten)))
    (buffers : fed.map Prod.fst = buffersOf added (past ++ history) batches)
    (small : ∀ buffer ∈ fed, buffer.1.length < 2147483648) :
    (∃ puts, PutsOut decoder fed puts ∧ Joined added past batches puts) ↔
      Apart added past batches.flatten ∧
        RecoverableRun added (past ++ history) batches.flatten := by
  induction batches generalizing history decoder fed with
  | nil =>
      obtain rfl : fed = [] := by simpa [buffersOf] using buffers
      simp only [PutsOut, exists_eq_left, List.flatten_nil, RecoverableRun.nil, and_true]
      exact ⟨fun _ => by simp [Apart], fun _ => .nil⟩
  | cons batch batches ih =>
      obtain _ | ⟨⟨buffer, outside⟩, fed⟩ := fed
      · simp [buffersOf] at buffers
      simp only [buffersOf, List.map_cons, List.cons.injEq] at buffers
      obtain ⟨rfl, buffers⟩ := buffers
      simp only [List.flatten_cons, List.mem_append, or_imp, forall_and] at fits countable
      have first : FewTokens added (past ++ (history ++ batch)) :=
        FewTokens.front (by simpa using countable)
      have here := follows.joined_batch few typed earlier fits.1 first outside
        (small _ (List.mem_cons_self ..))
      have extended : ∀ call ∈ past ++ (history ++ batch), call.Fits added := by
        simp only [List.mem_append, or_imp, forall_and] at earlier ⊢
        exact ⟨earlier.1, earlier.2, fits.1⟩
      rw [List.append_assoc] at buffers
      have later : ∀ decoder', LateFollows added past (history ++ batch) decoder' →
          ((∃ puts, PutsOut decoder' fed puts ∧ Joined added past batches puts) ↔
            Apart added past batches.flatten ∧
              RecoverableRun added (past ++ (history ++ batch)) batches.flatten) :=
        fun decoder' follows' => ih follows' extended fits.2
          (by simpa using countable) buffers
          fun other member => small other (by simp [member])
      rw [List.flatten_cons, apart_append, recoverableRun_append, List.append_assoc]
      have next : ∀ result : Context.Decoded, decoder.Decodes
          (Memory.ofBuffer (outputsOf added (past ++ history) batch).flatten outside)
          (UInt64.ofNat (outputsOf added (past ++ history) batch).flatten.length) [] result →
          Apart added past batch → LateFollows added past (history ++ batch) result.context := by
        intro result decoded apart
        obtain ⟨other, otherDecoded, _, follows'⟩ := follows.decodes few typed batch apart fits.1
          first outside (small _ (List.mem_cons_self ..))
        rwa [(Context.decodes_iff.mp decoded).unique (Context.decodes_iff.mp otherDecoded)]
      constructor
      · rintro ⟨_, ⟨result, rest, decoded, putsRest, rfl⟩, joined⟩
        obtain _ | ⟨part, joinedRest⟩ := joined
        obtain ⟨apart, recoverable⟩ := here.mp ⟨result, decoded, part⟩
        obtain ⟨apartRest, recoverableRest⟩ :=
          (later _ (next result decoded apart)).mp ⟨rest, putsRest, joinedRest⟩
        exact ⟨⟨apart, apartRest⟩, recoverable, recoverableRest⟩
      · rintro ⟨⟨apart, apartRest⟩, recoverable, recoverableRest⟩
        obtain ⟨result, decoded, part⟩ := here.mpr ⟨apart, recoverable⟩
        obtain ⟨rest, putsRest, joinedRest⟩ :=
          (later _ (next result decoded apart)).mpr ⟨apartRest, recoverableRest⟩
        exact ⟨_, ⟨result, rest, decoded, putsRest, rfl⟩, .cons part joinedRest⟩

end

/-- A decoder that joins late puts out only messages as they were encoded, and none that needs a
snapshot of the past, if and only if no later message is for a token of the past and every later
message is recoverable. -/
theorem joined_iff_apart {added : List Template} {past : List Call} {batches : List (List Call)}
    (few : added.length ≤ 255) (typed : ∀ tmp ∈ added, tmp.WellTyped)
    (fits : ∀ call ∈ past ++ batches.flatten, call.Fits added)
    (countable : FewTokens added (past ++ batches.flatten)) :
    ((∃ encoder outputs, encodeAll (Context.new (Templates.ofList added)) past =
        some (encoder, outputs) ∧ (encodeBatches encoder batches).isSome) ↔
      ∀ call ∈ past ++ batches.flatten, call.Writable added) ∧
    ∀ encoder outputs encoder' buffers,
      encodeAll (Context.new (Templates.ofList added)) past = some (encoder, outputs) →
      encodeBatches encoder batches = some (encoder', buffers) →
      ∀ fed : List (List UInt8 × Memory), fed.map Prod.fst = buffers →
        (∀ buffer ∈ fed, buffer.1.length < 2147483648) →
        ((∃ puts, PutsOut (Context.new (Templates.ofList added)) fed puts ∧
            Joined added past batches puts) ↔
          Apart added past batches.flatten ∧ RecoverableRun added past batches.flatten) := by
  simp only [List.mem_append, or_imp, forall_and] at fits ⊢
  obtain ⟨encoder, defined, following⟩ := (EncoderFollows.fresh few).run few typed fits.1
  rw [List.nil_append] at following
  refine ⟨⟨?_, ?_⟩, fun encoder outputs encoder' buffers encoded encoded' fed same small => ?_⟩
  · rintro ⟨_, _, encoded, made⟩
    obtain ⟨writable, pair⟩ := defined.elim encoded
    obtain ⟨rfl, rfl⟩ := Prod.mk.inj pair
    obtain ⟨_, defined'⟩ := (following writable).runBatches few typed fits.2
    obtain ⟨_, encoded'⟩ := Option.isSome_iff_exists.mp made
    exact ⟨writable, (defined'.elim encoded').1⟩
  · rintro ⟨writable, writable'⟩
    obtain ⟨_, defined'⟩ := (following writable).runBatches few typed fits.2
    exact ⟨_, _, defined.1 writable, by rw [defined'.1 writable']; rfl⟩
  · obtain ⟨writable, pair⟩ := defined.elim encoded
    obtain ⟨rfl, rfl⟩ := Prod.mk.inj pair
    obtain ⟨_, defined'⟩ := (following writable).runBatches few typed fits.2
    obtain ⟨_, rfl⟩ := Prod.mk.inj (defined'.elim encoded').2
    have joined := (LateFollows.fresh few past).joined_iff few typed (by simpa using fits.1)
      fits.2 (by simpa using countable) (by simpa using same) small
    simpa using joined

/-- A price encoded for a second instrument. -/
def otherCall (price : Int64) : Call := { priceCall price with token := [66] }

/-- A decoder that missed one instrument reads another that is new. -/
theorem joined_iff_apart_prices :
    ((∃ encoder outputs, encodeAll (Context.new (Templates.ofList [priceTemplate]))
        [priceCall 5] = some (encoder, outputs) ∧
        (encodeBatches encoder [[otherCall 6, otherCall 7], [otherCall 8]]).isSome) ↔
      ∀ call ∈ [priceCall 5, otherCall 6, otherCall 7, otherCall 8],
        call.Writable [priceTemplate]) ∧
    ∀ encoder outputs encoder' buffers,
      encodeAll (Context.new (Templates.ofList [priceTemplate])) [priceCall 5] =
        some (encoder, outputs) →
      encodeBatches encoder [[otherCall 6, otherCall 7], [otherCall 8]] =
        some (encoder', buffers) →
      ∀ fed : List (List UInt8 × Memory), fed.map Prod.fst = buffers →
        (∀ buffer ∈ fed, buffer.1.length < 2147483648) →
        ((∃ puts, PutsOut (Context.new (Templates.ofList [priceTemplate])) fed puts ∧
            Joined [priceTemplate] [priceCall 5] [[otherCall 6, otherCall 7], [otherCall 8]] puts) ↔
          Apart [priceTemplate] [priceCall 5] [otherCall 6, otherCall 7, otherCall 8] ∧
            RecoverableRun [priceTemplate] [priceCall 5]
              [otherCall 6, otherCall 7, otherCall 8]) := by
  have fits : ∀ price, (otherCall price).Fits [priceTemplate] := fits_priceCall
  have countable : FewTokens [priceTemplate]
      ([priceCall 5] ++ [[otherCall 6, otherCall 7], [otherCall 8]].flatten) :=
    fewTokens_of_short (by decide)
  exact joined_iff_apart (by decide) wellTyped_priceTemplate (by simp [fits_priceCall, fits])
    countable

/-- A template with one 64-bit integer that is sent as a difference. -/
def moveTemplate : Template :=
  ((Template.new 1).setMessage (Message.new.addField (Field.new .int64))).addInstruction
    (.int64 ⟨.delta, true, false, 0⟩)

theorem wellTyped_moveTemplate : ∀ tmp ∈ [moveTemplate], tmp.WellTyped := by
  intro tmp member
  rw [List.mem_singleton] at member
  subst member
  refine ⟨by decide, ⟨rfl, trivial⟩, ?_, _, rfl, rfl, rfl⟩
  intro instruction member
  obtain rfl : instruction = .int64 ⟨.delta, true, false, 0⟩ := by
    simpa [moveTemplate, Template.addInstruction, Template.setMessage, Template.new,
      FieldInstruction.setIndex] using member
  rfl

theorem fits_moveCall (price : Int64) : (priceCall price).Fits [moveTemplate] := by
  intro tmp found
  obtain rfl : moveTemplate.setIndex 0 = tmp := Option.some_inj.mp found
  exact ⟨rfl, rfl⟩

/-- After a price of 5, a decoder that joins late takes the difference to a price of 6 for the price
itself: it puts out 1. -/
theorem late_difference_put_out :
    ¬∀ (added : List Template) (past : List Call) (batches : List (List Call)),
      added.length ≤ 255 → (∀ tmp ∈ added, tmp.WellTyped) →
      (∀ call ∈ past ++ batches.flatten, call.Fits added) →
      ∀ encoder outputs encoder' buffers,
        encodeAll (Context.new (Templates.ofList added)) past = some (encoder, outputs) →
        encodeBatches encoder batches = some (encoder', buffers) →
        ∀ fed : List (List UInt8 × Memory), fed.map Prod.fst = buffers →
          (∀ buffer ∈ fed, buffer.1.length < 2147483648) →
          ∃ puts, PutsOut (Context.new (Templates.ofList added)) fed puts ∧
            Joined added past batches puts := by
  intro claimed
  have few : [moveTemplate].length ≤ 255 := by decide
  have pastFits : ∀ call ∈ [priceCall 5], call.Fits [moveTemplate] := by simp [fits_moveCall]
  have fits : ∀ call ∈ [[priceCall 6]].flatten, call.Fits [moveTemplate] := by
    simp [fits_moveCall]
  obtain ⟨encoder, encoded, following⟩ :=
    (EncoderFollows.fresh few).run few wellTyped_moveTemplate pastFits
  have follows := following (by simp [writable_priceCall])
  obtain ⟨encoder', encoded'⟩ := follows.runBatches few wellTyped_moveTemplate fits
  have bytes : buffersOf [moveTemplate] ([] ++ [priceCall 5]) [[priceCall 6]] =
      [[1, 0, 1, 0, 0, 0, 2]] := by decide
  obtain ⟨puts, ⟨result, rest, decoded, _, rfl⟩, joined⟩ := claimed [moveTemplate] [priceCall 5]
    [[priceCall 6]] few wellTyped_moveTemplate (by simp [fits_moveCall]) encoder _ encoder' _
    (encoded.1 (by simp [writable_priceCall])) (encoded'.1 (by simp [writable_priceCall]))
    [([1, 0, 1, 0, 0, 0, 2], fun _ => 0)] (by rw [bytes]; rfl) (by simp)
  obtain _ | ⟨part, _⟩ := joined
  have run : ((Context.new (Templates.ofList [moveTemplate])).decode 2
      (Memory.ofBuffer [1, 0, 1, 0, 0, 0, 2] fun _ => 0) 7 []).outcome.map
        (fun result => result.messages.map Message.view) =
      some [([.int64], [.integer 1])] := by decide
  obtain ⟨other, returned, views⟩ := Option.map_eq_some_iff.mp run
  have otherDecoded : (Context.new (Templates.ofList [moveTemplate])).Decodes
      (Memory.ofBuffer [1, 0, 1, 0, 0, 0, 2] fun _ => 0) 7 [] other := ⟨2, returned⟩
  rw [(Context.decodes_iff.mp decoded).unique (Context.decodes_iff.mp otherDecoded), views] at part
  exact absurd part (by decide)

end FlashForwarder
