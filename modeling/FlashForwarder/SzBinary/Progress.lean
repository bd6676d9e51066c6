import FlashForwarder.SzBinary.Delivery

/-!
# Progress

How far a pass of `decode` moves is computed from a length on the wire, kept in an `int`.  A body
of 2 ^ 31 bytes or more makes it negative, and so does a chunk that an `int` cannot measure.
-/

namespace FlashForwarder

open ProgramLoop

namespace SzBinaryDecoder

/-! ## One pass -/

/-- How many bytes a pass reads from `begin` on. -/
def bytesRead (decoder : SzBinaryDecoder) (begin_ end_ : Int) : Nat :=
  (min decoder.lack (toInt32 (end_ - begin_))).toNat

/-- These are the only bytes that a pass depends on. -/
theorem consume_congr (decoder : SzBinaryDecoder) {memory memory' : Memory} {begin_ end_ : Int}
    (consumed : Int)
    (same : memory'.read begin_ (decoder.bytesRead begin_ end_) =
      memory.read begin_ (decoder.bytesRead begin_ end_)) :
    decoder.consume memory' begin_ end_ consumed = decoder.consume memory begin_ end_ consumed := by
  rw [bytesRead] at same
  by_cases reach : decoder.lack ≤ toInt32 (end_ - begin_)
  · rw [Int.min_eq_left reach] at same
    have pushed : decoder.pushBytes memory' begin_ decoder.lack =
        decoder.pushBytes memory begin_ decoder.lack := by
      rw [pushBytes, same, pushBytes]
    cases state : decoder.state with
    | head => rw [consume_to_body _ _ state reach, consume_to_body _ _ state reach, pushed]
    | body => rw [consume_to_tail _ _ state reach, consume_to_tail _ _ state reach, pushed]
    | tail => rw [consume_checks _ _ state reach, consume_checks _ _ state reach, pushed]
  · rw [Int.min_eq_right (by omega)] at same
    rw [consume_short _ _ reach, consume_short _ _ reach, pushBytes, same, pushBytes]

/-- A pass moves on inside the chunk: what it reads and where it goes is not behind it and not
beyond the end, and if it stays where it is, it changes the state. -/
structure Onward (chunk : Chunk) (cursor : Cursor) : Prop where
  reads : cursor.begin_ + cursor.decoder.bytesRead cursor.begin_ chunk.bytes.length ≤
    chunk.bytes.length
  forward : ∀ next, passes chunk cursor = .again next →
    cursor.begin_ ≤ next.begin_ ∧ next.begin_ ≤ chunk.bytes.length
  changes : ∀ next, passes chunk cursor = .again next → next.begin_ = cursor.begin_ →
    next.decoder.state ≠ cursor.decoder.state

/-- The header of the body at hand announces less than 2 ^ 31 bytes, and what is left of the chunk,
as an `int`, is positive or all that is needed. -/
structure Measured (chunk : Chunk) (cursor : Cursor) : Prop where
  announced : cursor.decoder.state = .body → bodyLength cursor.decoder.decodeBuffer < 2147483648
  toRead : 0 < toInt32 (chunk.bytes.length - cursor.begin_) ∨
    cursor.decoder.lack ≤ toInt32 (chunk.bytes.length - cursor.begin_)

/-- In a chunk of fewer than 2 ^ 31 bytes only the header matters. -/
theorem measured_of_small {chunk : Chunk} {cursor : Cursor}
    (small : chunk.bytes.length < 2147483648) (inside : 0 ≤ cursor.begin_)
    (more : cursor.begin_ < chunk.bytes.length)
    (announced : cursor.decoder.state = .body →
      bodyLength cursor.decoder.decodeBuffer < 2147483648) : Measured chunk cursor := by
  refine ⟨announced, .inl ?_⟩
  rw [toInt32_of_range] <;> omega

section Pass

variable {chunk : Chunk} {cursor next : Cursor}

theorem more_of_again (again : passes chunk cursor = .again next) :
    cursor.begin_ < chunk.bytes.length := by
  by_contra ended
  rw [passes_end ended] at again
  exact absurd again (by simp)

theorem again_cases (more : cursor.begin_ < chunk.bytes.length)
    (again : passes chunk cursor = .again next) :
    (toInt32 (chunk.bytes.length - cursor.begin_) < cursor.decoder.lack ∧
      next.begin_ = cursor.begin_ + toInt32 (chunk.bytes.length - cursor.begin_) ∧
      next.decoder.state = cursor.decoder.state) ∨
    (cursor.decoder.lack ≤ toInt32 (chunk.bytes.length - cursor.begin_) ∧
      next.begin_ = cursor.begin_ + cursor.decoder.lack ∧
      (cursor.decoder.state = .head ∧ next.decoder.state = .body ∨
        cursor.decoder.state = .body ∧ next.decoder.state = .tail ∨
        cursor.decoder.state = .tail ∧ next.decoder.state = .head ∧
          SumsUp (cursor.decoder.pushBytes chunk.memory cursor.begin_ cursor.decoder.lack))) := by
  obtain ⟨decoder, begin_, consumed, handed⟩ := cursor
  dsimp only at more ⊢
  by_cases reach : decoder.lack ≤ toInt32 (chunk.bytes.length - begin_)
  · right
    cases state : decoder.state with
    | head =>
        rw [passes_again more (consume_to_body _ _ state reach)] at again
        obtain rfl := Pass.again.inj again
        exact ⟨reach, rfl, .inl ⟨rfl, rfl⟩⟩
    | body =>
        rw [passes_again more (consume_to_tail _ _ state reach)] at again
        obtain rfl := Pass.again.inj again
        exact ⟨reach, rfl, .inr (.inl ⟨rfl, rfl⟩)⟩
    | tail =>
        have step := consume_checks chunk.memory consumed state reach
        by_cases sumsUp : SumsUp (decoder.pushBytes chunk.memory begin_ decoder.lack)
        · rw [if_pos sumsUp] at step
          rw [passes_again more step] at again
          obtain rfl := Pass.again.inj again
          exact ⟨reach, rfl, .inr (.inr ⟨rfl, rfl, sumsUp⟩)⟩
        · rw [if_neg sumsUp] at step
          rw [passes_refuse more step] at again
          exact absurd again (by simp)
  · rw [passes_again more (consume_short _ _ reach)] at again
    obtain rfl := Pass.again.inj again
    exact .inl ⟨by omega, rfl, rfl⟩

/-- A pass that completes the header or the body goes round again. -/
theorem exists_again (more : cursor.begin_ < chunk.bytes.length)
    (open_ : cursor.decoder.state ≠ .tail ∨
      toInt32 (chunk.bytes.length - cursor.begin_) < cursor.decoder.lack) :
    ∃ next, passes chunk cursor = .again next := by
  obtain ⟨decoder, begin_, consumed, handed⟩ := cursor
  dsimp only at more open_
  by_cases reach : decoder.lack ≤ toInt32 (chunk.bytes.length - begin_)
  · cases state : decoder.state with
    | head => exact ⟨_, passes_again more (consume_to_body _ _ state reach)⟩
    | body => exact ⟨_, passes_again more (consume_to_tail _ _ state reach)⟩
    | tail => exact absurd open_ (by simp [state, reach])
  · exact ⟨_, passes_again more (consume_short _ _ reach)⟩

end Pass

/-- An honest decoder lacks something unless it is at the end of a body. -/
theorem Honest.lack_nonneg {decoder : SzBinaryDecoder} (honest : Honest decoder) :
    0 ≤ decoder.lack := by
  rw [honest.lack_eq]
  omega

theorem Honest.announced {decoder : SzBinaryDecoder} (honest : Honest decoder)
    (state : decoder.state = .body) : bodyLength decoder.decodeBuffer < 2147483648 := by
  have here := honest.2
  simp only [state] at here
  exact here.2.1

theorem Doomed.lack_neg {decoder : SzBinaryDecoder} (doomed : Doomed decoder)
    (state : decoder.state = .body) : decoder.lack < 0 := by
  have lackEq := doomed.lack_eq
  obtain ⟨-, -, -, size, bounded⟩ := doomed
  have bound := bodyLength_lt decoder.decodeBuffer
  simp only [state, reduceCtorEq, false_and, or_false, if_true] at bounded lackEq
  omega

theorem Doomed.not_sumsUp {decoder : SzBinaryDecoder} (doomed : Doomed decoder)
    (state : decoder.state = .tail) {memory : Memory} {begin_ end_ : Int}
    (reach : decoder.lack ≤ toInt32 (end_ - begin_)) :
    ¬SumsUp (decoder.pushBytes memory begin_ decoder.lack) := by
  intro sumsUp
  have step := doomed.consume_tail memory 0 state reach
  rw [consume_checks memory 0 state reach, if_pos sumsUp] at step
  exact absurd (congrArg Consumed.ret step) (by simp)

section Reachable

variable {chunk : Chunk} {cursor next : Cursor}
  (settled : Honest cursor.decoder ∨ Doomed cursor.decoder)
  (more : cursor.begin_ < chunk.bytes.length)

include settled more

/-- A measured pass neither goes back nor goes round in place. -/
theorem Measured.advances (measured : Measured chunk cursor)
    (again : passes chunk cursor = .again next) :
    cursor.begin_ ≤ next.begin_ ∧ next.begin_ ≤ chunk.bytes.length ∧
      3 * (chunk.bytes.length - next.begin_).toNat + remainingStates next.decoder.state <
        3 * (chunk.bytes.length - cursor.begin_).toNat + remainingStates cursor.decoder.state := by
  have left := toInt32_le (by omega : 0 < (chunk.bytes.length : Int) - cursor.begin_)
  have toRead := measured.toRead
  rcases again_cases more again with ⟨short, moved, same⟩ | ⟨reach, moved, turned⟩
  · rw [same]
    omega
  · have forward : 0 ≤ cursor.decoder.lack := by
      rcases settled with honest | doomed
      · exact honest.lack_nonneg
      · rcases turned with ⟨state, -⟩ | ⟨state, -⟩ | ⟨state, -, sumsUp⟩
        · exact absurd state doomed.1
        · have announced := measured.announced state
          have long := doomed.2.2.1
          omega
        · exact absurd sumsUp (doomed.not_sumsUp state reach)
    rcases turned with ⟨state, state'⟩ | ⟨state, state'⟩ | ⟨state, state', sumsUp⟩ <;>
      rw [state, state'] <;> simp only [remainingStates]
    · omega
    · omega
    · have lacking : 0 < cursor.decoder.lack := by
        rcases settled with honest | doomed
        · have here := honest.2
          simp only [state] at here
          rw [honest.lack_eq]
          omega
        · exact absurd sumsUp (doomed.not_sumsUp state reach)
      omega

theorem onward_iff_measured : Onward chunk cursor ↔ Measured chunk cursor := by
  have left := toInt32_le (by omega : 0 < (chunk.bytes.length : Int) - cursor.begin_)
  constructor
  · intro onward
    refine ⟨fun state => ?_, ?_⟩
    · rcases settled with honest | doomed
      · exact honest.announced state
      · obtain ⟨next, again⟩ := exists_again more (.inl (by simp [state]))
        have back := doomed.lack_neg state
        have forward := (onward.forward next again).1
        rcases again_cases more again with ⟨short, moved, -⟩ | ⟨-, moved, -⟩ <;> omega
    · by_contra neither
      rw [not_or] at neither
      obtain ⟨next, again⟩ := exists_again more (.inr (by omega))
      have forward := (onward.forward next again).1
      rcases again_cases more again with ⟨short, moved, same⟩ | ⟨reach, -⟩
      · exact onward.changes next again (by omega) same
      · omega
  · intro measured
    refine ⟨?_, fun next again => ?_, fun next again stays same => ?_⟩
    · rw [bytesRead]
      omega
    · obtain ⟨forward, inside, -⟩ := measured.advances settled more again
      exact ⟨forward, inside⟩
    · obtain ⟨-, -, fewer⟩ := measured.advances settled more again
      rw [stays, same] at fewer
      omega

end Reachable

/-! ## Whole calls -/

/-- Every pass of a call moves on, and the call returns. -/
structure MovesForward (decoder : SzBinaryDecoder) (chunk : Chunk) : Prop where
  onward : ∀ cursor, Reaches (passes chunk) ⟨decoder, 0, 0, []⟩ cursor →
    cursor.begin_ < chunk.bytes.length → Onward chunk cursor
  inside : ∀ cursor, Reaches (passes chunk) ⟨decoder, 0, 0, []⟩ cursor →
    0 ≤ cursor.begin_ ∧ cursor.begin_ ≤ chunk.bytes.length
  ends : ∃ result, Decodes decoder chunk result

variable {chunk : Chunk} {decoder : SzBinaryDecoder} {cursor : Cursor}

theorem Stands.settled {before : List UInt8} {earlier : List (List UInt8)}
    (stands : Stands before earlier chunk cursor) :
    Honest cursor.decoder ∨ Doomed cursor.decoder := by
  cases stands with
  | inStep position here within honest front collected extracted => exact .inl honest
  | astray doomed extracted => exact .inr doomed
  | stuck honest more nothing extracted => exact .inl honest

/-- Wherever the loop gets, the decoder is honest or doomed. -/
theorem Feeds.reaches {chunks : List Chunk} {rets : List Int} {handed : List (List UInt8)}
    (feeds : Feeds fresh chunks rets handed decoder)
    (reached : Reaches (passes chunk) ⟨decoder, 0, 0, []⟩ cursor) :
    Honest cursor.decoder ∨ Doomed cursor.decoder := by
  have start : Settled [] [] fresh := settled_fresh ⟨Excerpts.nil [], by simp⟩
  have stands := reached.keeps (fun _ stands => stands.pass) ((feeds.settled start).stands chunk)
  exact stands.settled

/-- With every pass measured, the loop stays inside the chunk and ends. -/
theorem Feeds.movesForward {chunks : List Chunk} {rets : List Int} {handed : List (List UInt8)}
    (feeds : Feeds fresh chunks rets handed decoder)
    (measured : ∀ cursor, Reaches (passes chunk) ⟨decoder, 0, 0, []⟩ cursor →
      cursor.begin_ < chunk.bytes.length → Measured chunk cursor) :
    MovesForward decoder chunk := by
  have inside : ∀ cursor, Reaches (passes chunk) ⟨decoder, 0, 0, []⟩ cursor →
      0 ≤ cursor.begin_ ∧ cursor.begin_ ≤ chunk.bytes.length := by
    intro cursor reached
    induction reached with
    | start =>
        dsimp only
        omega
    | @again state next reached passed ih =>
        have more := more_of_again passed
        have advances := (measured state reached more).advances (feeds.reaches reached) more passed
        omega
  refine ⟨fun cursor reached more => ?_, inside, ?_⟩
  · exact (onward_iff_measured (feeds.reaches reached) more).mpr (measured cursor reached more)
  · refine exists_leaves_of_variant (Reaches (passes chunk) ⟨decoder, 0, 0, []⟩)
      (fun cursor => 3 * (chunk.bytes.length - cursor.begin_).toNat +
        remainingStates cursor.decoder.state) ?_ .start
    intro state next reached passed
    have more := more_of_again passed
    have advances := (measured state reached more).advances (feeds.reaches reached) more passed
    exact ⟨.again reached passed, advances.2.2⟩

/-- Whatever came before, the passes over a chunk move on and come to an end just if each of them
finds a header that announces less than 2 ^ 31 bytes and a rest of the chunk that an `int` can
measure. -/
theorem movesForward_iff {chunks : List Chunk} {rets : List Int} {handed : List (List UInt8)}
    (feeds : Feeds fresh chunks rets handed decoder) (chunk : Chunk) :
    MovesForward decoder chunk ↔
      ∀ cursor, Reaches (passes chunk) ⟨decoder, 0, 0, []⟩ cursor →
        cursor.begin_ < chunk.bytes.length → Measured chunk cursor :=
  ⟨fun forward cursor reached more =>
    (onward_iff_measured (feeds.reaches reached) more).mp (forward.onward cursor reached more),
    feeds.movesForward⟩

/-- A heartbeat in two chunks; the decoder has met the first of them. -/
theorem movesForward_iff_heartbeat : ∃ decoder,
    decoder.decodeBuffer = heartbeatFrame.bytes.take 5 ∧
      (MovesForward decoder ⟨heartbeatFrame.bytes.drop 5, fun _ => 7⟩ ↔
        ∀ cursor, Reaches (passes ⟨heartbeatFrame.bytes.drop 5, fun _ => 7⟩) ⟨decoder, 0, 0, []⟩
            cursor → cursor.begin_ < (heartbeatFrame.bytes.drop 5).length →
          Measured ⟨heartbeatFrame.bytes.drop 5, fun _ => 7⟩ cursor) := by
  have first : Decodes fresh ⟨heartbeatFrame.bytes.take 5, fun _ => 7⟩
      ⟨0, ⟨.head, heartbeatFrame.bytes.take 5, 0⟩, []⟩ := ⟨5, by decide⟩
  exact ⟨_, rfl, movesForward_iff (.cons first (.nil _)) _⟩

deriving instance DecidableEq for Cursor

/-- A header that announces 2 ^ 31 bytes, and one more byte behind it, lead the loop back to before
the chunk. -/
theorem negative_length_leads_back :
    ¬∀ (chunks : List Chunk) (rets : List Int) (handed : List (List UInt8))
      (decoder : SzBinaryDecoder) (chunk : Chunk), Feeds fresh chunks rets handed decoder →
        MovesForward decoder chunk := by
  intro always
  have forward := always [] [] [] fresh ⟨[0, 0, 0, 0, 0x80, 0, 0, 0, 1], fun _ => 7⟩ (.nil fresh)
  have header : passes ⟨[0, 0, 0, 0, 0x80, 0, 0, 0, 1], fun _ => 7⟩ ⟨fresh, 0, 0, []⟩ =
      .again ⟨⟨.body, [0, 0, 0, 0, 0x80, 0, 0, 0], -2147483648⟩, 8, 8, []⟩ := by decide
  have body : passes ⟨[0, 0, 0, 0, 0x80, 0, 0, 0, 1], fun _ => 7⟩
      ⟨⟨.body, [0, 0, 0, 0, 0x80, 0, 0, 0], -2147483648⟩, 8, 8, []⟩ =
      .again ⟨⟨.tail, [0, 0, 0, 0, 0x80, 0, 0, 0], -2147483648⟩, -2147483640, -2147483648, []⟩ := by
    decide
  have back := (forward.inside _ (.again (.again .start header) body)).1
  exact absurd back (by decide)

end SzBinaryDecoder

end FlashForwarder
