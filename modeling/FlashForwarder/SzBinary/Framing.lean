import FlashForwarder.SzBinary.Passes

/-!
# Framing

The frames a decoder hands on do not depend on where the stream is cut, and a frame with a
wrong checksum is answered at its last byte.
-/

namespace FlashForwarder

open ProgramLoop

namespace SzBinaryDecoder

/-! ## Whole frames -/

/-- The bytes of successive frames. -/
def stream (frames : List Frame) : List UInt8 := frames.flatMap Frame.bytes

@[simp] theorem stream_nil : stream [] = [] := rfl

@[simp] theorem stream_cons (frame : Frame) (frames : List Frame) :
    stream (frame :: frames) = frame.bytes ++ stream frames := rfl

@[simp] theorem stream_append (left right : List Frame) :
    stream (left ++ right) = stream left ++ stream right := by
  simp [stream]

theorem fresh_inside (frame : Frame) : Inside frame 0 fresh := by
  simp [Inside, fresh]

/-- Genuine frames are handed on one after another. -/
theorem leaves_genuine {chunk : Chunk} (small : chunk.bytes.length < 2147483648)
    {frames : List Frame} (genuine : ∀ frame ∈ frames, frame.Genuine) {rest : List UInt8}
    {position : Nat} (ahead : chunk.bytes.drop position = stream frames ++ rest)
    {handed : List (List UInt8)} {result : Decoded}
    (after : ∀ consumed, Leaves (passes chunk)
      ⟨fresh, (position + (stream frames).length : Nat), consumed,
        handed ++ frames.map Frame.bytes⟩ result) (consumed : Int) :
    Leaves (passes chunk) ⟨fresh, position, consumed, handed⟩ result := by
  induction frames generalizing position handed consumed with
  | nil => simpa using after consumed
  | cons frame frames ih =>
      rw [stream_cons, List.append_assoc] at ahead
      have lengths := congrArg List.length ahead
      rw [List.length_drop, List.length_append] at lengths
      have positive := frame.length_bytes
      apply leaves_full (fresh_inside frame) (Or.inl ⟨_, ahead.symm⟩) small (by omega)
      rw [if_pos (genuine frame (by simp))]
      intro consumed
      apply ih fun other member => genuine other (by simp [member])
      · rw [← List.drop_drop, ahead]
        simp
      · intro consumed
        have step := after consumed
        simp only [stream_cons, List.length_append, List.map_cons] at step
        simpa [Nat.add_assoc] using step

/-- A decoder resting on part of the first frame works through the genuine frames `done` and
then rests on part of the frame `next` that follows them. -/
theorem exists_resume {chunk : Chunk} (small : chunk.bytes.length < 2147483648)
    {done : List Frame} {first next : Frame} {taken : Nat} {rest : List UInt8}
    (genuine : ∀ frame ∈ done, frame.Genuine) (head : (done ++ [next]).head? = some first)
    (unfinished : taken < first.bytes.length)
    (pending : first.bytes.take taken ++ chunk.bytes = stream done ++ rest) :
    ∃ taken' position, taken' < next.bytes.length ∧ position ≤ chunk.bytes.length ∧
      next.bytes.take taken' ++ chunk.bytes.drop position = rest ∧
      ∀ result,
        (∀ consumed, Leaves (passes chunk)
          ⟨resting (next.bytes.take taken'), position, consumed, done.map Frame.bytes⟩ result) →
        Decodes (resting (first.bytes.take taken)) chunk result := by
  cases done with
  | nil =>
      obtain rfl : next = first := by simpa using head
      refine ⟨taken, 0, unfinished, Nat.zero_le _, by simpa using pending, ?_⟩
      exact fun result after => after 0
  | cons frame done =>
      obtain rfl : frame = first := by simpa using head
      have ahead : chunk.bytes = frame.bytes.drop taken ++ (stream done ++ rest) := by
        apply List.append_cancel_left
        rw [pending, stream_cons, ← List.append_assoc, List.take_append_drop, List.append_assoc]
      have lengths := congrArg List.length ahead
      simp only [List.length_append, List.length_drop] at lengths
      refine ⟨0, frame.bytes.length - taken + (stream done).length, by simp, by omega, ?_, ?_⟩
      · rw [List.take_zero, List.nil_append, ahead, ← List.append_assoc]
        apply List.drop_left'
        rw [List.length_append, List.length_drop]
      · intro result after
        have agrees : Agrees frame taken chunk 0 := Or.inl ⟨_, by simpa using ahead.symm⟩
        apply leaves_full (resting_inside frame unfinished) agrees small (by omega)
        rw [if_pos (genuine frame (by simp))]
        intro consumed
        have later : ∀ other ∈ done, other.Genuine := fun other member =>
          genuine other (by simp [member])
        have front : chunk.bytes.drop (0 + (frame.bytes.length - taken)) = stream done ++ rest := by
          rw [Nat.zero_add, ahead]
          simp
        refine leaves_genuine small later front ?_ consumed
        intro consumed
        simpa using after consumed

/-- A chunk of genuine frames is handed on whole, and the decoder rests on what is left. -/
theorem decodes_genuine {chunk : Chunk} (small : chunk.bytes.length < 2147483648)
    {done : List Frame} {first current : Frame} {taken kept : Nat}
    (genuine : ∀ frame ∈ done, frame.Genuine) (head : (done ++ [current]).head? = some first)
    (unfinished : taken < first.bytes.length) (proper : kept < current.bytes.length)
    (pending : first.bytes.take taken ++ chunk.bytes =
      stream done ++ current.bytes.take kept) :
    Decodes (resting (first.bytes.take taken)) chunk
      ⟨0, resting (current.bytes.take kept), done.map Frame.bytes⟩ := by
  obtain ⟨taken', position, inside, within, rest, resume⟩ :=
    exists_resume small genuine head unfinished pending
  apply resume
  intro consumed
  have lengths := congrArg List.length rest
  simp only [List.length_append, List.length_take, List.length_drop] at lengths
  have agrees : Agrees current taken' chunk position := by
    refine Or.inr ⟨current.bytes.drop kept, ?_⟩
    apply List.append_cancel_left
    rw [← List.append_assoc, rest, List.take_append_drop, List.take_append_drop]
  have left : Leaves (passes chunk)
      ⟨resting (current.bytes.take taken'), position, consumed, done.map Frame.bytes⟩ _ :=
    leaves_short (resting_inside current inside) agrees small within (by omega) fun _ => rfl
  rwa [show taken' + (chunk.bytes.length - position) = kept by omega] at left

/-- At the first frame with a wrong checksum `decode` returns `-1` and drops what follows. -/
theorem decodes_corrupt {chunk : Chunk} (small : chunk.bytes.length < 2147483648)
    {done : List Frame} {first corrupt : Frame} {taken : Nat} {dropped : List UInt8}
    (genuine : ∀ frame ∈ done, frame.Genuine) (wrong : ¬corrupt.Genuine)
    (head : (done ++ [corrupt]).head? = some first) (unfinished : taken < first.bytes.length)
    (pending : first.bytes.take taken ++ chunk.bytes =
      stream done ++ (corrupt.bytes ++ dropped)) :
    Decodes (resting (first.bytes.take taken)) chunk ⟨-1, fresh, done.map Frame.bytes⟩ := by
  obtain ⟨taken', position, inside, within, rest, resume⟩ :=
    exists_resume small genuine head unfinished pending
  apply resume
  intro consumed
  have lengths := congrArg List.length rest
  simp only [List.length_append, List.length_take, List.length_drop] at lengths
  have agrees : Agrees corrupt taken' chunk position := by
    refine Or.inl ⟨dropped, ?_⟩
    apply List.append_cancel_left
    rw [rest, ← List.append_assoc, List.take_append_drop]
  apply leaves_full (resting_inside corrupt inside) agrees small (by omega)
  rw [if_neg wrong]

/-! ## Any cutting of the stream -/

/-- A prefix of a stream is some of its frames and a proper part of the frame after them. -/
theorem exists_split {frames : List Frame} {last : Frame} {kept : Nat}
    (proper : kept < last.bytes.length) {front : List UInt8}
    (isPrefix : front <+: stream frames ++ last.bytes.take kept) :
    ∃ done rest current, ∃ taken < current.bytes.length,
      frames = done ++ rest ∧ (rest ++ [last]).head? = some current ∧
        front = stream done ++ current.bytes.take taken := by
  induction frames generalizing front with
  | nil =>
      have bound := isPrefix.length_le
      simp only [stream_nil, List.nil_append, List.length_take] at bound isPrefix
      refine ⟨[], [], last, front.length, by omega, rfl, rfl, ?_⟩
      have part := List.prefix_iff_eq_take.mp (isPrefix.trans (List.take_prefix _ _))
      simpa using part
  | cons frame frames ih =>
      by_cases inFirst : front.length < frame.bytes.length
      · refine ⟨[], frame :: frames, frame, front.length, inFirst, rfl, rfl, ?_⟩
        have part := List.prefix_iff_eq_take.mp isPrefix
        rw [stream_cons, List.append_assoc, List.take_append_of_le_length inFirst.le] at part
        simpa using part
      · have whole : frame.bytes <+: front := by
          rw [stream_cons, List.append_assoc] at isPrefix
          exact List.prefix_of_prefix_length_le (List.prefix_append _ _) isPrefix (by omega)
        obtain ⟨beyond, rfl⟩ := whole
        rw [stream_cons, List.append_assoc, List.prefix_append_right_inj] at isPrefix
        obtain ⟨done, rest, current, taken, inside, rfl, head, rfl⟩ := ih isPrefix
        exact ⟨frame :: done, rest, current, taken, inside, rfl, head, by simp⟩

/-- The frame a decoder is in does not change when frames after it are counted as done. -/
theorem head_done {done rest : List Frame} {last first current : Frame}
    (head : (done ++ rest ++ [last]).head? = some first)
    (next : (rest ++ [last]).head? = some current) :
    (done ++ [current]).head? = some first := by
  cases done with
  | nil => simpa [next] using head
  | cons frame done => simpa using head

/-- All the bytes of a list of chunks. -/
def joined (chunks : List Chunk) : List UInt8 := chunks.flatMap Chunk.bytes

@[simp] theorem joined_nil : joined [] = [] := rfl

@[simp] theorem joined_cons (chunk : Chunk) (chunks : List Chunk) :
    joined (chunk :: chunks) = chunk.bytes ++ joined chunks := rfl

@[simp] theorem joined_append (left right : List Chunk) :
    joined (left ++ right) = joined left ++ joined right := by
  simp [joined]

/-- Only a frame that is finished can come before the end of the stream. -/
theorem frames_eq_nil {frames : List Frame} {last first : Frame} {taken : Nat}
    {rest : List UInt8} (head : (frames ++ [last]).head? = some first)
    (unfinished : taken < first.bytes.length)
    (all : first.bytes.take taken = stream frames ++ rest) :
    frames = [] ∧ first = last := by
  cases frames with
  | nil => exact ⟨rfl, by simpa using head.symm⟩
  | cons frame frames =>
      obtain rfl : frame = first := by simpa using head
      have lengths := congrArg List.length all
      simp only [stream_cons, List.length_append, List.length_take] at lengths
      omega

/-- From part of a frame on, genuine frames are handed on however they are cut. -/
theorem feeds_genuine {chunks : List Chunk} {frames : List Frame} {first last : Frame}
    (taken kept : Nat) (small : ∀ chunk ∈ chunks, chunk.bytes.length < 2147483648)
    (genuine : ∀ frame ∈ frames, frame.Genuine)
    (head : (frames ++ [last]).head? = some first) (unfinished : taken < first.bytes.length)
    (proper : kept < last.bytes.length)
    (cut : first.bytes.take taken ++ joined chunks = stream frames ++ last.bytes.take kept) :
    Feeds (resting (first.bytes.take taken)) chunks (List.replicate chunks.length 0)
      (frames.map Frame.bytes) (resting (last.bytes.take kept)) := by
  induction chunks generalizing frames first taken with
  | nil =>
      rw [joined_nil, List.append_nil] at cut
      obtain ⟨rfl, rfl⟩ := frames_eq_nil head unfinished cut
      rw [cut]
      exact Feeds.nil _
  | cons chunk chunks ih =>
      rw [joined_cons, ← List.append_assoc] at cut
      obtain ⟨done, rest, current, kept', inside, rfl, next, pending⟩ :=
        exists_split proper ⟨_, cut⟩
      have here := decodes_genuine (small chunk (by simp))
        (fun frame member => genuine frame (by simp [member])) (head_done head next)
        unfinished inside pending
      have later := ih _ (fun other member => small other (by simp [member]))
        (fun frame member => genuine frame (by simp [member])) next inside (by
          rw [pending, stream_append, List.append_assoc, List.append_assoc] at cut
          exact List.append_cancel_left cut)
      rw [List.map_append]
      exact Feeds.cons here later

/-- A fresh decoder hands on whole genuine frames however they are cut, and ends fresh. -/
theorem feeds_whole {chunks : List Chunk} {frames : List Frame}
    (genuine : ∀ frame ∈ frames, frame.Genuine)
    (small : ∀ chunk ∈ chunks, chunk.bytes.length < 2147483648)
    (cut : joined chunks = stream frames) :
    Feeds fresh chunks (List.replicate chunks.length 0) (frames.map Frame.bytes) fresh := by
  let next : Frame := ⟨0, [], 0, by decide⟩
  obtain ⟨first, head⟩ : ∃ first, (frames ++ [next]).head? = some first := by
    cases frames <;> simp
  have positive := first.length_bytes
  simpa using feeds_genuine 0 0 small genuine head (by omega) (by simp)
    (by simpa using cut)

/-! ## Results -/

theorem Feeds.unique {decoder final₁ final₂ : SzBinaryDecoder} {chunks : List Chunk}
    {rets₁ rets₂ : List Int} {handed₁ handed₂ : List (List UInt8)}
    (first : Feeds decoder chunks rets₁ handed₁ final₁)
    (second : Feeds decoder chunks rets₂ handed₂ final₂) :
    rets₁ = rets₂ ∧ handed₁ = handed₂ ∧ final₁ = final₂ := by
  induction first generalizing rets₂ handed₂ with
  | nil => cases second with | nil => exact ⟨rfl, rfl, rfl⟩
  | cons decodes _ ih =>
      cases second with
      | cons decodes' feeds' =>
          obtain rfl := decodes.unique decodes'
          obtain ⟨rfl, rfl, rfl⟩ := ih feeds'
          exact ⟨rfl, rfl, rfl⟩

/-- The frame decoder hands on every genuine frame once and in order, and then waits as it would
on the unfinished part alone, wherever the stream is cut into chunks that fit an `int`. -/
theorem framing_independent_of_cuts (start : SzBinaryDecoder)
    (clean : start = fresh ∨ ∃ decoder : SzBinaryDecoder, start = decoder.reset)
    (frames : List Frame) (genuine : ∀ frame ∈ frames, frame.Genuine)
    (next : Frame) (unfinished : List UInt8) (isPrefix : unfinished <+: next.bytes)
    (proper : unfinished ≠ next.bytes) (chunks : List Chunk)
    (cut : joined chunks = stream frames ++ unfinished)
    (small : ∀ chunk ∈ chunks, chunk.bytes.length < 2 ^ 31) :
    ∃ final, Feeds start chunks (List.replicate chunks.length 0)
        (frames.map Frame.bytes) final ∧
      final.decodeBuffer = unfinished ∧
      (∀ outside, Decodes fresh ⟨unfinished, outside⟩ ⟨0, final, []⟩) ∧
      (unfinished = [] → final = fresh) := by
  have kept := List.prefix_iff_eq_take.mp isPrefix
  have inside : unfinished.length < next.bytes.length := by
    refine lt_of_le_of_ne isPrefix.length_le fun equal => proper ?_
    exact isPrefix.eq_of_length equal
  have startFresh : start = resting [] := by
    rcases clean with rfl | ⟨decoder, rfl⟩ <;> rfl
  obtain ⟨first, head⟩ : ∃ first, (frames ++ [next]).head? = some first := by
    cases frames <;> simp
  have fed := feeds_genuine 0 _ small genuine head
    (by have := first.length_bytes; omega) inside
    (by rw [List.take_zero, List.nil_append, ← kept]; exact cut)
  rw [List.take_zero, ← startFresh, ← kept] at fed
  refine ⟨resting unfinished, fed, decodeBuffer_resting _, ?_, ?_⟩
  · intro outside
    have nextSmall := next.length_lt
    have alone : Decodes (resting (next.bytes.take 0)) ⟨unfinished, outside⟩
        ⟨0, resting (next.bytes.take unfinished.length), ([] : List Frame).map Frame.bytes⟩ :=
      decodes_genuine (by simp only; omega) (by simp) rfl (by omega) inside (by simpa using kept)
    rwa [List.take_zero, resting_nil, ← kept] at alone
  · rintro rfl
    rfl

/-- A heartbeat frame: no body, checksum 3. -/
def heartbeatFrame : Frame := ⟨3, [], 3, by decide⟩

theorem heartbeatFrame_genuine : heartbeatFrame.Genuine := by decide

theorem framing_independent_of_cuts_heartbeats :
    ∃ final, Feeds fresh [⟨heartbeatFrame.bytes.take 5, fun _ => 7⟩,
        ⟨heartbeatFrame.bytes.drop 5 ++ heartbeatFrame.bytes.take 8, fun _ => 9⟩] [0, 0]
        [heartbeatFrame.bytes] final ∧
      final.decodeBuffer = heartbeatFrame.bytes.take 8 ∧
      (∀ outside, Decodes fresh ⟨heartbeatFrame.bytes.take 8, outside⟩ ⟨0, final, []⟩) ∧
      (heartbeatFrame.bytes.take 8 = [] → final = fresh) :=
  framing_independent_of_cuts fresh (Or.inl rfl) [heartbeatFrame] (by decide) heartbeatFrame
    (heartbeatFrame.bytes.take 8) (List.take_prefix _ _) (by decide) _ (by decide) (by decide)

/-- A chunk of 2 GiB to 4 GiB makes `toRead` negative, the cursor steps back to a distance of
exactly 2 ^ 32 from the end, and from there every pass sees nothing to read. -/
theorem decode_diverges {chunk : Chunk} (large : 2147483648 ≤ chunk.bytes.length)
    (bounded : chunk.bytes.length < 4294967296) :
    Diverges (passes chunk) ⟨fresh, 0, 0, []⟩ := by
  let inside (cursor : Cursor) : Prop :=
    cursor.decoder = fresh ∧
      (cursor.begin_ = 0 ∨ cursor.begin_ = chunk.bytes.length - 4294967296)
  apply Diverges.of_invariant inside _ ⟨rfl, Or.inl rfl⟩
  rintro ⟨decoder, begin_, consumed, handed⟩ ⟨rfl, at_⟩
  simp only at at_
  have nonpositive : toInt32 (chunk.bytes.length - begin_) ≤ 0 := by
    rw [toInt32, Int.bmod_def]
    split <;> omega
  have backwards : begin_ + toInt32 (chunk.bytes.length - begin_) =
      chunk.bytes.length - 4294967296 := by
    rw [toInt32, Int.bmod_def]
    split <;> omega
  have before : begin_ < chunk.bytes.length := by omega
  have lack : toInt32 8 = 8 := by decide
  have short : ¬(8 : Int) ≤ toInt32 (chunk.bytes.length - begin_) := by omega
  have nothing : (toInt32 (chunk.bytes.length - begin_)).toNat = 0 := by omega
  refine ⟨⟨fresh, begin_ + toInt32 (chunk.bytes.length - begin_),
    toInt32 (chunk.bytes.length - begin_), handed⟩, ?_, rfl, Or.inr backwards⟩
  simp [decodePass, before, consume, fresh, headSize, lack, short, pushBytes, nothing]

theorem length_stream_replicate (count : Nat) (frame : Frame) :
    (stream (List.replicate count frame)).length = count * frame.bytes.length := by
  induction count with
  | zero => simp
  | succ count ih =>
      rw [List.replicate_succ, stream_cons, List.length_append, ih, Nat.succ_mul]
      omega

theorem not_feeds_of_diverges {decoder final : SzBinaryDecoder} {chunk : Chunk}
    {chunks : List Chunk} {rets : List Int} {handed : List (List UInt8)}
    (forever : Diverges (passes chunk) ⟨decoder, 0, 0, []⟩) :
    ¬Feeds decoder (chunk :: chunks) rets handed final := by
  intro feeds
  cases feeds with
  | cons decodes _ => exact forever.not_leaves _ decodes

/-- In 2 ^ 28 heartbeats arriving as one chunk of 3 GiB, no frame is ever handed on: `decode` does
not return. -/
theorem framing_depends_on_huge_cuts :
    (∀ frame ∈ List.replicate 268435456 heartbeatFrame, frame.Genuine) ∧
      ∀ rets handed final, ¬Feeds fresh
        [⟨stream (List.replicate 268435456 heartbeatFrame), fun _ => 0⟩] rets handed final := by
  refine ⟨fun frame member => ?_, fun rets handed final => not_feeds_of_diverges ?_⟩
  · rw [List.eq_of_mem_replicate member]
    exact heartbeatFrame_genuine
  · have length : (stream (List.replicate 268435456 heartbeatFrame)).length = 3221225472 := by
      rw [length_stream_replicate]
      rfl
    apply decode_diverges
    · show 2147483648 ≤ (stream (List.replicate 268435456 heartbeatFrame)).length
      rw [length]
      decide
    · show (stream (List.replicate 268435456 heartbeatFrame)).length < 4294967296
      rw [length]
      decide

/-! ## Frames with wrong checksums -/

/-- The buffers handed on by successive calls, whatever these return. -/
def Delivers (chunks : List Chunk) (handed : List (List UInt8)) : Prop :=
  ∃ rets final, Feeds fresh chunks rets handed final

/-- Where a frame with a wrong checksum ends, counted from `offset` bytes before the chunks: the
rest of that chunk is whole frames with wrong checksums. -/
def CorruptionEndsChunk (offset : Nat) (frames : List Frame) (chunks : List Chunk) : Prop :=
  ∀ before corrupt after, frames = before ++ corrupt :: after → ¬corrupt.Genuine →
    ∀ earlier chunk later, chunks = earlier ++ chunk :: later →
      offset + (joined earlier).length < (stream (before ++ [corrupt])).length →
      (stream (before ++ [corrupt])).length ≤
        offset + (joined earlier).length + chunk.bytes.length →
      ∃ lost kept, after = lost ++ kept ∧ (∀ frame ∈ lost, ¬frame.Genuine) ∧
        offset + (joined earlier).length + chunk.bytes.length =
          (stream (before ++ corrupt :: lost)).length

/-- The frames with a right checksum. -/
def genuineFrames (frames : List Frame) : List Frame := frames.filter fun frame => frame.Genuine

theorem genuineFrames_append (left right : List Frame) :
    genuineFrames (left ++ right) = genuineFrames left ++ genuineFrames right :=
  List.filter_append ..

theorem genuineFrames_of_all {frames : List Frame} (genuine : ∀ frame ∈ frames, frame.Genuine) :
    genuineFrames frames = frames :=
  List.filter_eq_self.mpr fun frame member => decide_eq_true (genuine frame member)

theorem genuineFrames_of_none {frames : List Frame} (wrong : ∀ frame ∈ frames, ¬frame.Genuine) :
    genuineFrames frames = [] :=
  List.filter_eq_nil_iff.mpr fun frame member => by simpa using wrong frame member

/-- Frames are all genuine, or there is a first one that is not. -/
theorem genuine_or_first_corrupt (frames : List Frame) :
    (∀ frame ∈ frames, frame.Genuine) ∨
      ∃ good corrupt lost, frames = good ++ corrupt :: lost ∧
        (∀ frame ∈ good, frame.Genuine) ∧ ¬corrupt.Genuine := by
  induction frames with
  | nil => exact Or.inl (by simp)
  | cons frame frames ih =>
      by_cases genuine : frame.Genuine
      · rcases ih with all | ⟨good, corrupt, lost, rfl, before, wrong⟩
        · exact Or.inl (List.forall_mem_cons.mpr ⟨genuine, all⟩)
        · exact Or.inr ⟨frame :: good, corrupt, lost, rfl,
            List.forall_mem_cons.mpr ⟨genuine, before⟩, wrong⟩
      · exact Or.inr ⟨[], frame, frames, rfl, by simp, genuine⟩

/-- The condition passes on to the chunks after the first. -/
theorem CorruptionEndsChunk.tail {offset kept : Nat} {done rest : List Frame} {chunk : Chunk}
    {chunks : List Chunk} (ends : CorruptionEndsChunk offset (done ++ rest) (chunk :: chunks))
    (reached : offset + chunk.bytes.length = (stream done).length + kept) :
    CorruptionEndsChunk kept rest chunks := by
  rintro before corrupt after rfl wrong earlier middle later rfl starts stops
  obtain ⟨lost, beyond, split, allWrong, ended⟩ :=
    ends (done ++ before) corrupt after (by simp) wrong (chunk :: earlier) middle later rfl
      (by simp at starts ⊢; omega) (by simp at stops ⊢; omega)
  refine ⟨lost, beyond, split, allWrong, ?_⟩
  simp at ended ⊢
  omega

/-- Where two runs of the same frames, one followed by part of the next frame, are equally
long, there is no such part. -/
theorem eq_of_equal_length {lost kept lost' rest : List Frame} {last current : Frame}
    {part : Nat} (same : lost' ++ rest = lost ++ kept)
    (next : (rest ++ [last]).head? = some current) (inside : part < current.bytes.length)
    (lengths : (stream lost).length = (stream lost').length + part) :
    part = 0 ∧ lost' = lost := by
  rcases List.append_eq_append_iff.mp same with ⟨more, rfl, rfl⟩ | ⟨more, rfl, rfl⟩
  · cases more with
    | nil => simp at lengths ⊢; omega
    | cons frame more =>
        obtain rfl : frame = current := by simpa using next
        simp at lengths inside
        omega
  · cases more with
    | nil => simp at lengths ⊢; omega
    | cons frame more =>
        simp at lengths
        omega

/-- From part of a frame on, frames with wrong checksums that end their chunk cost themselves
alone. -/
theorem feeds_corrupt {chunks : List Chunk} {frames : List Frame} {first last : Frame}
    {taken : Nat} (small : ∀ chunk ∈ chunks, chunk.bytes.length < 2147483648)
    (head : (frames ++ [last]).head? = some first) (unfinished : taken < first.bytes.length)
    (cut : first.bytes.take taken ++ joined chunks = stream frames)
    (ends : CorruptionEndsChunk taken frames chunks) :
    ∃ rets final, Feeds (resting (first.bytes.take taken)) chunks rets
      ((genuineFrames frames).map Frame.bytes) final := by
  induction chunks generalizing frames first taken with
  | nil =>
      rw [joined_nil, List.append_nil] at cut
      have whole : first.bytes.take taken = stream frames ++ [] := by simpa using cut
      obtain ⟨rfl, rfl⟩ := frames_eq_nil head unfinished whole
      exact ⟨[], _, Feeds.nil _⟩
  | cons chunk chunks ih =>
      rw [joined_cons, ← List.append_assoc] at cut
      have lastPositive : 0 < last.bytes.length := by
        have := last.length_bytes
        omega
      obtain ⟨done, rest, current, kept, inside, rfl, next, pending⟩ :=
        exists_split lastPositive ⟨joined chunks, by
          rw [cut, List.take_zero, List.append_nil]⟩
      have reached : taken + chunk.bytes.length = (stream done).length + kept := by
        have lengths := congrArg List.length pending
        simp only [List.length_append, List.length_take] at lengths
        omega
      have cut' : current.bytes.take kept ++ joined chunks = stream rest := by
        rw [pending, stream_append, List.append_assoc] at cut
        exact List.append_cancel_left cut
      have smallHere := small chunk (by simp)
      have smallLater : ∀ other ∈ chunks, other.bytes.length < 2147483648 :=
        fun other member => small other (by simp [member])
      have headHere := head_done head next
      rcases genuine_or_first_corrupt done with
        genuine | ⟨good, corrupt, lost, rfl, genuine, wrong⟩
      · obtain ⟨rets, final, later⟩ := ih smallLater next inside cut' (ends.tail reached)
        refine ⟨0 :: rets, final, ?_⟩
        rw [genuineFrames_append, genuineFrames_of_all genuine, List.map_append]
        exact Feeds.cons (decodes_genuine smallHere genuine headHere unfinished inside pending)
          later
      · have headCorrupt : (good ++ [corrupt]).head? = some first := by
          cases good <;> simpa using headHere
        have starts : taken < (stream (good ++ [corrupt])).length := by
          cases good with
          | nil =>
              obtain rfl : corrupt = first := by simpa using headCorrupt
              simpa using unfinished
          | cons frame good =>
              obtain rfl : frame = first := by simpa using headCorrupt
              simp at unfinished ⊢
              omega
        obtain ⟨lost', beyond, split, allWrong, ended⟩ :=
          ends good corrupt (lost ++ rest) (by simp) wrong [] chunk chunks rfl
            (by simpa using starts)
            (by simp at reached ⊢; omega)
        obtain ⟨rfl, rfl⟩ := eq_of_equal_length split next inside (by simp at reached ended; omega)
        have here := decodes_corrupt smallHere genuine wrong headCorrupt
          unfinished (by simpa using pending)
        obtain ⟨rets, final, later⟩ := ih smallLater next inside cut' (ends.tail reached)
        refine ⟨-1 :: rets, final, ?_⟩
        have kept : genuineFrames (good ++ corrupt :: lost ++ rest) =
            good ++ genuineFrames rest := by
          rw [genuineFrames_append, genuineFrames_append, genuineFrames_of_all genuine,
            genuineFrames_of_none (List.forall_mem_cons.mpr ⟨wrong, allWrong⟩), List.append_nil]
        rw [kept, List.map_append]
        exact Feeds.cons here (by simpa using later)

/-- Where every corrupt frame's chunk holds nothing after it but further corrupt frames, exactly
the frames with a right checksum are handed on. -/
theorem corrupt_frames_cost_themselves (frames : List Frame) (chunks : List Chunk)
    (cut : joined chunks = stream frames)
    (small : ∀ chunk ∈ chunks, chunk.bytes.length < 2 ^ 31)
    (ends : CorruptionEndsChunk 0 frames chunks) (handed : List (List UInt8)) :
    Delivers chunks handed ↔ handed = (genuineFrames frames).map Frame.bytes := by
  obtain ⟨first, head⟩ : ∃ first, (frames ++ [heartbeatFrame]).head? = some first := by
    cases frames <;> simp
  obtain ⟨rets, final, fed⟩ := feeds_corrupt small head
    (by have := first.length_bytes; omega) (by simpa using cut) ends
  rw [List.take_zero] at fed
  constructor
  · rintro ⟨rets', final', fed'⟩
    exact (fed'.unique fed).2.1
  · rintro rfl
    exact ⟨rets, final, fed⟩

/-- A heartbeat frame with a wrong checksum. -/
def corruptHeartbeat : Frame := ⟨3, [], 4, by decide⟩

theorem corrupt_frames_cost_themselves_heartbeats :
    Delivers [⟨corruptHeartbeat.bytes, fun _ => 0⟩, ⟨heartbeatFrame.bytes, fun _ => 0⟩]
        [heartbeatFrame.bytes] ↔
      [heartbeatFrame.bytes] =
        (genuineFrames [corruptHeartbeat, heartbeatFrame]).map Frame.bytes := by
  apply corrupt_frames_cost_themselves [corruptHeartbeat, heartbeatFrame] _ (by decide) (by decide)
  rintro before corrupt after split wrong earlier chunk later parts starts stops
  have atFront : before = [] ∧ corrupt = corruptHeartbeat ∧ after = [heartbeatFrame] := by
    rcases before with _ | ⟨first, _ | ⟨second, before⟩⟩
    · simpa [eq_comm] using split
    · obtain ⟨-, rfl, -⟩ := by simpa [eq_comm] using split
      exact absurd heartbeatFrame_genuine wrong
    · simp at split
  obtain ⟨rfl, rfl, rfl⟩ := atFront
  rcases earlier with _ | ⟨first, earlier⟩
  · obtain ⟨rfl, -⟩ := by simpa [eq_comm] using parts
    exact ⟨[], [heartbeatFrame], rfl, by simp, by simp⟩
  · obtain ⟨rfl, -⟩ := by simpa [eq_comm] using parts
    simp at starts

/-- A corrupt heartbeat and a good one in one chunk: the good one is lost with it, though the same
stream cut between them delivers it. -/
theorem corrupt_frame_costs_its_chunk :
    ¬corruptHeartbeat.Genuine ∧ heartbeatFrame.Genuine ∧
      Delivers [⟨corruptHeartbeat.bytes ++ heartbeatFrame.bytes, fun _ => 0⟩] [] ∧
      ¬Delivers [⟨corruptHeartbeat.bytes ++ heartbeatFrame.bytes, fun _ => 0⟩]
        [heartbeatFrame.bytes] ∧
      Delivers [⟨corruptHeartbeat.bytes, fun _ => 0⟩, ⟨heartbeatFrame.bytes, fun _ => 0⟩]
        [heartbeatFrame.bytes] := by
  have together : Decodes fresh ⟨corruptHeartbeat.bytes ++ heartbeatFrame.bytes, fun _ => 0⟩
      ⟨-1, fresh, []⟩ := ⟨5, by decide⟩
  have alone : Decodes fresh ⟨corruptHeartbeat.bytes, fun _ => 0⟩ ⟨-1, fresh, []⟩ :=
    ⟨5, by decide⟩
  have after : Decodes fresh ⟨heartbeatFrame.bytes, fun _ => 0⟩
      ⟨0, fresh, [heartbeatFrame.bytes]⟩ := ⟨5, by decide⟩
  have lost := Feeds.cons together (Feeds.nil fresh)
  refine ⟨by decide, by decide, ⟨_, _, lost⟩, ?_, ?_⟩
  · rintro ⟨rets, final, fed⟩
    have impossible := (fed.unique lost).2.1
    simp at impossible
  · exact ⟨_, _, Feeds.cons alone (Feeds.cons after (Feeds.nil fresh))⟩

end SzBinaryDecoder

end FlashForwarder
