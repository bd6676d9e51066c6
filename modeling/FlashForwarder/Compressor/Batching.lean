import FlashForwarder.Library.Mirrored
import FlashForwarder.Compressor.RoundTrip

/-!
# Decoding in batches

A run over a buffer is compared with a run over a buffer that has more bytes behind, and with a run
over the same bytes elsewhere.  The first is confined to its buffer and exempt where it fails, and
the checks of the second compare with a larger size.
-/

namespace FlashForwarder

open WireFormat ProgramLoop Traced

/-! ## Readers -/

/-- The number of bytes looked at. -/
def WireFormat.Unrolled.taken : Unrolled → Nat
  | .done _ taken => taken
  | .more _ taken => taken
  | .short taken => taken

section

variable {bytes bytes' : Nat → UInt8}

theorem readUnrolled_taken (shifts : List UInt32) (taken : Nat) (part : UInt32) :
    taken ≤ (readUnrolled (fun index => some (bytes index)) shifts taken part).taken := by
  induction shifts generalizing taken part with
  | nil => exact le_rfl
  | cons shift shifts ih =>
      simp only [readUnrolled]
      split
      · exact Nat.le_succ taken
      · exact (Nat.le_succ taken).trans (ih _ _)

theorem readUnrolled_congr {shifts : List UInt32} {taken : Nat} {part : UInt32}
    (same : ∀ index, index <
        (readUnrolled (fun index => some (bytes index)) shifts taken part).taken →
      bytes' index = bytes index) :
    readUnrolled (fun index => some (bytes' index)) shifts taken part =
      readUnrolled (fun index => some (bytes index)) shifts taken part := by
  induction shifts generalizing taken part with
  | nil => rfl
  | cons shift shifts ih =>
      simp only [readUnrolled] at same ⊢
      have here : bytes' taken = bytes taken := by
        apply same
        split
        · exact Nat.lt_succ_self taken
        · exact (Nat.lt_succ_self taken).trans_le (readUnrolled_taken _ _ _)
      rw [here]
      split
      · rfl
      · rename_i marked
        rw [if_neg marked] at same
        exact ih same

theorem readVarint32_congr
    (same : ∀ index < (readVarint32 fun index => some (bytes index)).touched,
      bytes' index = bytes index) :
    (readVarint32 fun index => some (bytes' index)) =
      readVarint32 fun index => some (bytes index) := by
  have looked : (readVarint32 fun index => some (bytes index)).touched =
      (readUnrolled (fun index => some (bytes index)) [0, 7, 14, 21, 28] 0 0).taken := by
    unfold readVarint32
    split <;> rename_i ended <;> rw [ended] <;> rfl
  rw [looked] at same
  rw [readVarint32, readUnrolled_congr same]
  rfl

theorem readVarint32_ret (byteAt : Nat → Option UInt8) :
    (readVarint32 byteAt).ret = -1 ∨ (readVarint32 byteAt).ret = (readVarint32 byteAt).touched := by
  unfold readVarint32
  split <;> simp

theorem readVarint64_ret (byteAt : Nat → Option UInt8) :
    (readVarint64 byteAt).ret = -1 ∨ (readVarint64 byteAt).ret = (readVarint64 byteAt).touched := by
  unfold readVarint64
  split
  · simp
  · simp
  · split
    · simp
    · simp
    · split <;> simp

theorem readVarint64_congr
    (same : ∀ index < (readVarint64 fun index => some (bytes index)).touched,
      bytes' index = bytes index) :
    (readVarint64 fun index => some (bytes' index)) =
      readVarint64 fun index => some (bytes index) := by
  have group : ∀ shifts taken,
      (readUnrolled (fun index => some (bytes index)) shifts taken 0).taken ≤
        (readVarint64 fun index => some (bytes index)).touched →
      readUnrolled (fun index => some (bytes' index)) shifts taken 0 =
        readUnrolled (fun index => some (bytes index)) shifts taken 0 :=
    fun shifts taken within => readUnrolled_congr fun index inside =>
      same index (inside.trans_le within)
  unfold readVarint64 at group ⊢
  have ahead := @readUnrolled_taken bytes
  cases first : readUnrolled (fun index => some (bytes index)) [0, 7, 14, 21] 0 0 with
  | done part0 taken0 => rw [group _ _ (by simp [first, Unrolled.taken]), first]
  | short taken0 => rw [group _ _ (by simp [first, Unrolled.taken]), first]
  | more part0 taken0 =>
      have past0 := ahead [0, 7, 14, 21] taken0 0
      cases second : readUnrolled (fun index => some (bytes index)) [0, 7, 14, 21] taken0 0 with
      | done part1 taken1 =>
          rw [second] at past0
          rw [group _ _ (by simpa [first, second, Unrolled.taken] using past0), first]
          simp only
          rw [group _ _ (by simp [first, second, Unrolled.taken]), second]
      | short taken1 =>
          rw [second] at past0
          rw [group _ _ (by simpa [first, second, Unrolled.taken] using past0), first]
          simp only
          rw [group _ _ (by simp [first, second, Unrolled.taken]), second]
      | more part1 taken1 =>
          have past1 := ahead [0, 7] taken1 0
          rw [second] at past0
          have touched : (readUnrolled (fun index => some (bytes index)) [0, 7] taken1 0).taken ≤
              (readVarint64 fun index => some (bytes index)).touched := by
            simp only [readVarint64, first, second]
            split <;> rename_i ended <;> rw [ended] <;> rfl
          simp only [readVarint64, first, second] at touched
          have within0 := past0.trans (past1.trans touched)
          rw [group _ _ (by simpa only [first, second, Unrolled.taken] using within0), first]
          have within1 := past1.trans touched
          simp only
          rw [group _ _ (by simpa only [first, second, Unrolled.taken] using within1), second]
          simp only
          rw [group _ _ (by simpa only [first, second] using touched)]

end
/-! ## Fields -/

/-- What the first run reads lies `shift` further on in the second's memory, and inside the first's
buffer of `total` bytes if that run is confined. -/
def Event.Shared (memory memory' : Memory) (shift : Int) (confined : Prop) (total : Nat) :
    Event → Prop
  | .read address count =>
      (∀ index < count, memory' (address + shift + index) = memory (address + index)) ∧
        (confined → 0 ≤ address ∧ address + count ≤ total)
  | _ => True

/-- The second run has `spare` bytes more ahead than the first, which has what is left of its buffer
if it is confined. -/
structure SizeAhead (confined : Prop) (total spare : Nat) (address : Int) (size size' : UInt64) :
    Prop where
  longer : size'.toNat = size.toNat + spare
  equal : ¬confined → spare = 0
  left : confined → 0 ≤ address ∧ address + size.toNat = total
  small : confined → total + spare < 2147483648

/-- A confined run fails. -/
def Failed (confined : Prop) (outcome : Option FieldDecoded) : Prop :=
  confined ∧ ∀ decoded, outcome = some decoded → decoded.ret = -1

/-- Both runs decode the same field; a confined one that succeeds stays in its buffer. -/
def SameField (confined : Prop) (total : Nat) (address : Int) (decoded decoded' : FieldDecoded) :
    Prop :=
  decoded' = decoded ∧
    (confined → decoded.ret ≠ -1 → 0 ≤ decoded.ret ∧ address + decoded.ret ≤ total)

section

variable {memory memory' : Memory} {shift : Int} {confined : Prop} {total spare : Nat}
  {address : Int} {size size' : UInt64} {message cacheMessage : Message} {pMap : UInt32}

theorem Event.Shared.bytes {count : Nat}
    (shared : Event.Shared memory memory' shift confined total (.read address count)) :
    memory'.read (address + shift) count = memory.read address count := by
  apply List.map_congr_left
  intro index member
  exact shared.1 index (List.mem_range.mp member)

theorem readVarint32At_mirrors :
    Mirrors (Event.Shared memory memory' shift confined total) Never
      (fun read read' => read' = read ∧
        (confined → read.ret ≠ -1 → 0 ≤ read.ret ∧ address + read.ret ≤ total))
      (readVarint32At memory address) (readVarint32At memory' (address + shift)) := by
  refine Mirrors.emit fun shared => Mirrors.pure ⟨readVarint32_congr shared.1, ?_⟩
  intro inside accepted
  have reaches := shared.2 inside
  rcases readVarint32_ret (fun index => some (memory (address + index))) with refused | taken
  · exact absurd refused accepted
  · rw [taken]
    omega

theorem readVarint64At_mirrors :
    Mirrors (Event.Shared memory memory' shift confined total) Never
      (fun read read' => read' = read ∧
        (confined → read.ret ≠ -1 → 0 ≤ read.ret ∧ address + read.ret ≤ total))
      (readVarint64At memory address) (readVarint64At memory' (address + shift)) := by
  refine Mirrors.emit fun shared => Mirrors.pure ⟨readVarint64_congr shared.1, ?_⟩
  intro inside accepted
  have reaches := shared.2 inside
  rcases readVarint64_ret (fun index => some (memory (address + index))) with refused | taken
  · exact absurd refused accepted
  · rw [taken]
    omega

theorem setBoth_ret {index : UInt16} {change : Field → Field} {consume : Int}
    {decoded : FieldDecoded}
    (set_ : (setBoth message cacheMessage index change consume).outcome = some decoded) :
    decoded.ret = consume := by
  unfold setBoth at set_
  cases cached : cacheMessage.modifyField index change <;>
    cases filled : message.modifyField index change <;>
    simp_all [outcome_bind]
  rw [← set_]

theorem setBoth_mirrors {index : UInt16} {change : Field → Field} {consume : Int}
    (stays : confined → 0 ≤ consume ∧ address + consume ≤ total) :
    Mirrors (Event.Shared memory memory' shift confined total) (Failed confined)
      (SameField confined total address)
      (setBoth message cacheMessage index change consume)
      (setBoth message cacheMessage index change consume) := by
  refine Mirrors.of_self fun decoded set_ => ⟨rfl, fun inside _ => ?_⟩
  rw [setBoth_ret set_]
  exact stays inside

/-- A check that can only be passed more easily by the second run. -/
theorem guard_mirrors {refused refused' : Prop} [Decidable refused] [Decidable refused']
    {accepted accepted' : Traced Event FieldDecoded}
    (easier : refused' → refused) (same : ¬confined → refused → refused')
    (goesOn : ¬refused → Mirrors (Event.Shared memory memory' shift confined total)
      (Failed confined) (SameField confined total address) accepted accepted') :
    Mirrors (Event.Shared memory memory' shift confined total) (Failed confined)
      (SameField confined total address)
      (if refused then return ⟨-1, message, cacheMessage⟩ else accepted)
      (if refused' then return ⟨-1, message, cacheMessage⟩ else accepted') := by
  by_cases fails : refused
  · rw [if_pos fails]
    by_cases inside : confined
    · exact Mirrors.of_exempt ⟨inside, by rintro _ ⟨⟩; rfl⟩
    · rw [if_pos (same inside fails)]
      exact Mirrors.pure ⟨rfl, fun _ accepted => absurd rfl accepted⟩
  · rw [if_neg fails, if_neg (mt easier fails)]
    exact goesOn fails

namespace FieldInstructionInteger

variable {α : Type} [FieldInteger α] (instruction : FieldInstructionInteger α)

theorem read_mirrors :
    Mirrors (Event.Shared memory memory' shift confined total) Never
      (fun read read' => read' = read ∧
        (confined → read.1 ≠ -1 → 0 ≤ read.1 ∧ address + read.1 ≤ total))
      (instruction.read memory address) (instruction.read memory' (address + shift)) := by
  unfold FieldInstructionInteger.read
  split
  · refine readVarint32At_mirrors.bind_exact ?_
    rintro read _ ⟨rfl, stays⟩
    exact Mirrors.pure ⟨rfl, stays⟩
  · split
    · exact Mirrors.undefined
    · refine readVarint64At_mirrors.bind_exact ?_
      rintro read _ ⟨rfl, stays⟩
      exact Mirrors.pure ⟨rfl, stays⟩

theorem decode_mirrors (ahead : SizeAhead confined total spare address size size') :
    Mirrors (Event.Shared memory memory' shift confined total) (Failed confined)
      (SameField confined total address)
      (instruction.decode memory address size message cacheMessage pMap)
      (instruction.decode memory' (address + shift) size' message cacheMessage pMap) := by
  obtain ⟨longer, equal, left, small⟩ := ahead
  unfold decode
  split
  · refine guard_mirrors (by omega) (fun outside => by have := equal outside; omega) fun _ => ?_
    refine Mirrors.emit fun shared => ?_
    rw [shared.bytes]
    exact setBoth_mirrors fun inside => by have := shared.2 inside; omega
  · cases instruction.type with
    | copy =>
        simp only
        split
        · refine (read_mirrors instruction).bind_exact ?_
          rintro ⟨n, value⟩ _ ⟨rfl, stays⟩
          refine guard_mirrors (by omega) (fun outside => by have := equal outside; omega) ?_
          intro accepted
          exact setBoth_mirrors fun inside => stays inside (mt Or.inl accepted)
        · refine Mirrors.pure ⟨rfl, fun inside _ => ?_⟩
          have := left inside
          exact ⟨le_rfl, by simp only; omega⟩
    | delta =>
        refine readVarint64At_mirrors.bind_exact ?_
        rintro read _ ⟨rfl, stays⟩
        refine guard_mirrors (by omega) (fun outside => by have := equal outside; omega) ?_
        intro accepted
        refine (Mirrors.refl _).bind_exact ?_
        rintro field _ rfl
        exact setBoth_mirrors fun inside => stays inside (mt Or.inl accepted)

end FieldInstructionInteger

namespace FieldInstructionString

variable (instruction : FieldInstructionString)

theorem decodeString_mirrors (ahead : SizeAhead confined total spare address size size') :
    Mirrors (Event.Shared memory memory' shift confined total) (Failed confined)
      (SameField confined total address)
      (instruction.decodeString memory address size message cacheMessage)
      (instruction.decodeString memory' (address + shift) size' message cacheMessage) := by
  obtain ⟨longer, equal, left, small⟩ := ahead
  refine readVarint32At_mirrors.bind_exact ?_
  rintro read _ ⟨rfl, stays⟩
  refine guard_mirrors (by omega) (fun outside => by have := equal outside; omega) ?_
  intro accepted
  rw [Int.add_right_comm]
  refine Mirrors.emit fun shared => ?_
  rw [shared.bytes]
  refine setBoth_mirrors fun inside => ?_
  obtain ⟨lower, _⟩ := stays inside (mt Or.inl accepted)
  have reaches := (shared.2 inside).2
  have room := left inside
  have bound := small inside
  rw [toInt32_of_range (by omega) (by omega)]
  omega

theorem decode_mirrors (ahead : SizeAhead confined total spare address size size') :
    Mirrors (Event.Shared memory memory' shift confined total) (Failed confined)
      (SameField confined total address)
      (instruction.decode memory address size message cacheMessage pMap)
      (instruction.decode memory' (address + shift) size' message cacheMessage pMap) := by
  have nothing : ∀ message cacheMessage : Message,
      SameField confined total address ⟨0, message, cacheMessage⟩ ⟨0, message, cacheMessage⟩ := by
    intro message cacheMessage
    refine ⟨rfl, fun inside _ => ?_⟩
    have := ahead.left inside
    exact ⟨le_rfl, by simp only; omega⟩
  unfold decode
  split
  · exact decodeString_mirrors instruction ahead
  · cases instruction.type with
    | copy =>
        simp only
        split
        · exact decodeString_mirrors instruction ahead
        · refine (Mirrors.refl _).bind_exact ?_
          rintro field _ rfl
          refine (Mirrors.refl _).bind_exact ?_
          rintro filled _ rfl
          exact Mirrors.pure (nothing filled cacheMessage)
    | delta => exact Mirrors.pure ⟨rfl, fun _ accepted => absurd rfl accepted⟩

end FieldInstructionString

/-- An instruction decodes the same field in both runs. -/
theorem FieldInstruction.decode_mirrors (instruction : FieldInstruction)
    (ahead : SizeAhead confined total spare address size size') :
    Mirrors (Event.Shared memory memory' shift confined total) (Failed confined)
      (SameField confined total address)
      (instruction.decode memory address size message cacheMessage pMap)
      (instruction.decode memory' (address + shift) size' message cacheMessage pMap) := by
  cases instruction with
  | int64 instruction => exact FieldInstructionInteger.decode_mirrors instruction ahead
  | uint64 instruction => exact FieldInstructionInteger.decode_mirrors instruction ahead
  | uint32 instruction => exact FieldInstructionInteger.decode_mirrors instruction ahead
  | string instruction => exact FieldInstructionString.decode_mirrors instruction ahead

/-! ## Messages -/

/-- The loops over a template's instructions stand at the same field of a message that starts at
`origin` in the first run. -/
structure FieldCursors (shift : Int) (confined : Prop) (total spare : Nat) (origin : Int)
    (cursor cursor' : Template.Cursor) : Prop where
  same : cursor' = { cursor with
    begin_ := cursor.begin_ + shift
    bufferSize := cursor.bufferSize + spare }
  equal : ¬confined → spare = 0
  left : confined → 0 ≤ cursor.bufferSize ∧ cursor.begin_ + cursor.bufferSize = total
  taken : confined → 0 ≤ origin ∧ 0 ≤ cursor.consume ∧ origin + cursor.consume = cursor.begin_
  small : confined → total + spare < 2147483648

theorem decodeFields_mirrors (spare : Nat) (origin : Int) (instructions : List FieldInstruction)
    {cursor cursor' : Template.Cursor}
    (related : FieldCursors shift confined total spare origin cursor cursor') :
    Mirrors (Event.Shared memory memory' shift confined total) (Failed confined)
      (SameField confined total origin)
      (Template.decodeFields memory pMap instructions cursor)
      (Template.decodeFields memory' pMap instructions cursor') := by
  induction instructions generalizing cursor cursor' with
  | nil =>
      obtain ⟨rfl, equal, left, taken, small⟩ := related
      refine Mirrors.pure ⟨rfl, fun inside _ => ?_⟩
      have := left inside
      have := taken inside
      exact ⟨by simp only; omega, by simp only; omega⟩
  | cons instruction instructions ih =>
      obtain ⟨rfl, equal, left, taken, small⟩ := related
      by_cases negative : cursor.bufferSize < 0
      · have outside : ¬confined := fun inside => by have := left inside; omega
        obtain rfl := equal outside
        simp only [Template.decodeFields, negative, if_true, Nat.cast_zero, Int.add_zero]
        exact Mirrors.emit fun _ => Mirrors.pure ⟨rfl, fun inside => absurd inside outside⟩
      · have negative' : ¬cursor.bufferSize + spare < 0 := by omega
        simp only [Template.decodeFields, negative, negative', if_false]
        have ahead : SizeAhead confined total spare cursor.begin_
            (UInt64.ofNat cursor.bufferSize.toNat)
            (UInt64.ofNat (cursor.bufferSize + spare).toNat) := by
          by_cases inside : confined
          · have := left inside
            have := taken inside
            have := small inside
            refine ⟨?_, equal, fun _ => ⟨by omega, ?_⟩, small⟩
            · rw [UInt64.toNat_ofNat', UInt64.toNat_ofNat', Nat.mod_eq_of_lt (by omega),
                Nat.mod_eq_of_lt (by omega)]
              omega
            · rw [UInt64.toNat_ofNat', Nat.mod_eq_of_lt (by omega)]
              omega
          · obtain rfl := equal inside
            exact ⟨by simp, equal, fun here => absurd here inside, small⟩
        refine (FieldInstruction.decode_mirrors instruction ahead).bind ?_ ?_ ?_
        · rintro _ decoded ⟨rfl, stays⟩
          by_cases failed : decoded.ret = -1
          · simp only [failed, if_true]
            exact Mirrors.pure ⟨rfl, fun _ accepted => absurd rfl accepted⟩
          · simp only [failed, if_false]
            have rest : confined →
                toInt32 (cursor.bufferSize - decoded.ret) = cursor.bufferSize - decoded.ret ∧
                toInt32 (cursor.bufferSize + spare - decoded.ret) =
                  cursor.bufferSize + spare - decoded.ret ∧
                toInt32 (cursor.consume + decoded.ret) = cursor.consume + decoded.ret := by
              intro inside
              have := left inside
              have := taken inside
              have := small inside
              have := stays inside failed
              refine ⟨?_, ?_, ?_⟩ <;> exact toInt32_of_range (by omega) (by omega)
            refine Mirrors.emit fun _ => ih ⟨?_, equal, fun inside => ?_, fun inside => ?_, small⟩
            · by_cases inside : confined
              · obtain ⟨shorter, longer, _⟩ := rest inside
                simp only [shorter, longer, Template.Cursor.mk.injEq, and_true]
                omega
              · obtain rfl := equal inside
                simp only [Nat.cast_zero, Int.add_zero, Template.Cursor.mk.injEq, and_true]
                omega
            · have := left inside
              have := stays inside failed
              simp only [(rest inside).1]
              omega
            · have := taken inside
              have := stays inside failed
              simp only [(rest inside).2.2]
              omega
        · exact fun lost => ⟨lost.1, by simp⟩
        · rintro decoded ⟨inside, failed⟩
          have refused := failed decoded rfl
          refine ⟨inside, ?_⟩
          simp [refused]

theorem SizeAhead.behind {n : Int} (ahead : SizeAhead confined total spare address size size')
    (stays : confined → 0 ≤ n ∧ address + n ≤ total) :
    SizeAhead confined total spare (address + n) (size - UInt64.ofInt n)
      (size' - UInt64.ofInt n) := by
  obtain ⟨longer, equal, left, small⟩ := ahead
  by_cases inside : confined
  · obtain ⟨lower, upper⟩ := stays inside
    have := left inside
    obtain ⟨count, rfl⟩ := Int.eq_ofNat_of_zero_le lower
    have shorter := Context.toNat_sub_ofInt size (n := count) (by omega)
    have further := Context.toNat_sub_ofInt size' (n := count) (by omega)
    exact ⟨by omega, equal, fun _ => ⟨by omega, by omega⟩, small⟩
  · have same : size' = size :=
      UInt64.toNat_inj.mp (by rw [longer, equal inside, Nat.add_zero])
    rw [same]
    exact ⟨by rw [equal inside, Nat.add_zero], equal, fun here => absurd here inside, small⟩

theorem Template.decode_mirrors (tmp : Template) {messages : List Message}
    (ahead : SizeAhead confined total spare address size size') :
    Mirrors (Event.Shared memory memory' shift confined total)
      (fun outcome => confined ∧ ∀ decoded, outcome = some decoded → decoded.ret = -1)
      (fun decoded decoded' => decoded' = decoded ∧
        (confined → decoded.ret ≠ -1 → 0 ≤ decoded.ret ∧ address + decoded.ret ≤ total))
      (tmp.decode memory address size messages cacheMessage)
      (tmp.decode memory' (address + shift) size' messages cacheMessage) := by
  obtain ⟨longer, equal, left, small⟩ := ahead
  unfold Template.decode
  by_cases empty : size = 0
  · rw [if_pos empty]
    by_cases inside : confined
    · exact Mirrors.of_exempt ⟨inside, by rintro _ ⟨⟩; rfl⟩
    · have same : size' = size := UInt64.toNat_inj.mp (by rw [longer, equal inside, Nat.add_zero])
      rw [same, if_pos empty]
      exact Mirrors.pure ⟨rfl, fun here => absurd here inside⟩
  · have some_ : size.toNat ≠ 0 := fun zero => empty (UInt64.toNat_inj.mp zero)
    have empty' : size' ≠ 0 := by
      rintro rfl
      rw [UInt64.toNat_zero] at longer
      omega
    rw [if_neg empty, if_neg empty']
    refine Mirrors.emit fun shared => Mirrors.emit fun _ => ?_
    rw [shared.bytes]
    refine (Mirrors.refl _).bind_exact ?_
    rintro message _ rfl
    refine (decodeFields_mirrors spare address tmp.instructions ?_).bind ?_ ?_ ?_
    · have room : confined → toInt32 (toInt32 size.toNat - 4) = size.toNat - 4 ∧
          toInt32 (toInt32 size'.toNat - 4) = size'.toNat - 4 := by
        intro inside
        have := left inside
        have := small inside
        rw [toInt32_natCast (by omega), toInt32_natCast (by omega)]
        exact ⟨toInt32_of_range (by omega) (by omega), toInt32_of_range (by omega) (by omega)⟩
      refine ⟨?_, equal, fun inside => ?_, fun inside => ?_, small⟩
      · simp only [Template.Cursor.mk.injEq, and_true]
        by_cases inside : confined
        · obtain ⟨shorter, further⟩ := room inside
          rw [shorter, further]
          omega
        · obtain rfl := equal inside
          rw [longer, Nat.add_zero, Nat.cast_zero]
          omega
      · have := left inside
        have := shared.2 inside
        simp only [(room inside).1]
        omega
      · have := left inside
        exact ⟨by omega, by simp only; omega, rfl⟩
    · rintro _ decoded ⟨rfl, stays⟩
      exact Mirrors.pure ⟨rfl, stays⟩
    · exact fun lost => ⟨lost.1, by simp⟩
    · rintro decoded ⟨inside, failed⟩
      refine ⟨inside, ?_⟩
      rintro _ ⟨⟩
      exact failed decoded rfl

namespace Context

/-- The loops over a stream stand at the same message. -/
def CursorsAhead (shift : Int) (confined : Prop) (total spare : Nat) (cursor cursor' : Cursor) :
    Prop :=
  ∃ size', cursor' = { cursor with begin_ := cursor.begin_ + shift, size := size' } ∧
    SizeAhead confined total spare cursor.begin_ cursor.size size'

theorem decodeMessage_mirrors {cursor : Cursor} {tmp : Template} {cacheIndex : UInt64}
    (ahead : SizeAhead confined total spare cursor.begin_ cursor.size size') :
    Mirrors (Event.Shared memory memory' shift confined total)
      (fun outcome => confined ∧ Ends outcome)
      (PassRel (CursorsAhead shift confined total spare) Eq)
      (decodeMessage memory cursor tmp cacheIndex)
      (decodeMessage memory' { cursor with begin_ := cursor.begin_ + shift, size := size' } tmp
        cacheIndex) := by
  unfold decodeMessage
  refine (Mirrors.refl _).bind_exact ?_
  rintro array _ rfl
  refine (Mirrors.refl _).bind_exact ?_
  rintro (_ | ⟨grown, cacheMessage⟩) _ rfl
  · exact Mirrors.pure rfl
  refine (Template.decode_mirrors tmp ahead).bind ?_ ?_ ?_
  · rintro _ decoded ⟨rfl, stays⟩
    by_cases failed : decoded.ret = -1
    · simp only [failed, if_true]
      exact Mirrors.pure rfl
    · simp only [failed, if_false]
      refine Mirrors.emit fun _ => Mirrors.pure ⟨size' - UInt64.ofInt decoded.ret, ?_,
        ahead.behind fun inside => stays inside failed⟩
      simp only [Cursor.mk.injEq, and_true]
      omega
  · exact fun lost => ⟨lost.1, by simp [Ends]⟩
  · rintro decoded ⟨inside, failed⟩
    have refused := failed decoded rfl
    refine ⟨inside, ?_⟩
    simp [refused, Ends]

/-- A length that is refused ends the first run, and a confined one is exempt. -/
theorem refuses_mirrors {n : Int} {left : Decoded}
    {accepted accepted' : Traced Event (Pass Cursor Decoded)}
    (ahead : SizeAhead confined total spare address size size')
    (goesOn : n ≠ -1 → Mirrors (Event.Shared memory memory' shift confined total)
      (fun outcome => confined ∧ Ends outcome)
      (PassRel (CursorsAhead shift confined total spare) Eq) accepted accepted') :
    Mirrors (Event.Shared memory memory' shift confined total)
      (fun outcome => confined ∧ Ends outcome)
      (PassRel (CursorsAhead shift confined total spare) Eq)
      (if refuses size n then return .leave left else accepted)
      (if refuses size' n then return .leave left else accepted') := by
  have longer := ahead.longer
  simp only [refuses, decide_eq_true_eq]
  by_cases fails : n = -1 ∨ (size.toNat : Int) < n
  · rw [if_pos fails]
    by_cases inside : confined
    · exact Mirrors.of_exempt ⟨inside, by simp [Ends]⟩
    · have none := ahead.equal inside
      rw [if_pos (by omega)]
      exact Mirrors.pure rfl
  · rw [if_neg fails, if_neg (by omega)]
    exact goesOn (mt Or.inl fails)

theorem decodePass_mirrors {cursor cursor' : Cursor} {end_ : Int}
    (related : CursorsAhead shift confined total spare cursor cursor') :
    Mirrors (Event.Shared memory memory' shift confined total)
      (fun outcome => confined ∧ Ends outcome)
      (PassRel (CursorsAhead shift confined total spare) Eq)
      (decodePass memory end_ cursor) (decodePass memory' (end_ + shift + spare) cursor') := by
  obtain ⟨size', rfl, ahead⟩ := related
  unfold decodePass
  by_cases more : cursor.begin_ ≤ end_
  · have more' : cursor.begin_ + shift ≤ end_ + shift + spare := by omega
    rw [if_pos more, if_pos more']
    refine readVarint32At_mirrors.bind_exact ?_
    rintro _ templateId ⟨rfl, idStays⟩
    refine refuses_mirrors ahead fun accepted => Mirrors.emit fun _ => ?_
    have ahead₁ := ahead.behind fun inside => idStays inside accepted
    simp only
    rw [Int.add_right_comm cursor.begin_ shift]
    refine readVarint64At_mirrors.bind_exact ?_
    rintro _ cacheIndex ⟨rfl, indexStays⟩
    refine refuses_mirrors ahead₁ fun accepted => Mirrors.emit fun _ => ?_
    have ahead₂ := ahead₁.behind fun inside => indexStays inside accepted
    rw [Int.add_right_comm _ shift]
    split
    · exact Mirrors.pure rfl
    · exact decodeMessage_mirrors ahead₂
  · rw [if_neg more]
    by_cases inside : confined
    · exact Mirrors.of_exempt ⟨inside, by simp [Ends, Cursor.stop]⟩
    · have none := ahead.equal inside
      rw [if_neg (by simp only; omega)]
      exact Mirrors.pure rfl

end Context

end

/-! ## Runs -/

/-- If the event is a read, it stays in a buffer of `total` bytes. -/
def Event.ReadsInside (total : Nat) : Event → Prop
  | .read address count => 0 ≤ address ∧ address + count ≤ total
  | _ => True

instance (total : Nat) : DecidablePred (Event.ReadsInside total)
  | .read address count => inferInstanceAs (Decidable (0 ≤ address ∧ address + count ≤ total))
  | .debit _ _ => inferInstanceAs (Decidable True)
  | .cut => inferInstanceAs (Decidable True)
  | .snapshot _ _ _ => inferInstanceAs (Decidable True)
  | .lengthError => inferInstanceAs (Decidable True)

section

variable {front back : List UInt8} {outside outside' : Memory} {event : Event}

/-- What is read inside a buffer is what is read there when more bytes lie behind. -/
theorem Event.ReadsInside.shared_front (inside : event.ReadsInside front.length) :
    Event.Shared (Memory.ofBuffer front outside') (Memory.ofBuffer (front ++ back) outside) 0 True
      front.length event := by
  cases event with
  | read address count =>
      obtain ⟨lower, upper⟩ := inside
      refine ⟨fun index bound => ?_, fun _ => ⟨lower, upper⟩⟩
      obtain ⟨start, rfl⟩ := Int.eq_ofNat_of_zero_le lower
      have near : start + index < front.length := by omega
      have within : start + index < (front ++ back).length := by
        rw [List.length_append]
        omega
      have there := Memory.ofBuffer_getElem outside within
      have here := Memory.ofBuffer_getElem outside' near
      push_cast at there here
      rw [Int.add_zero, there, here, List.getElem_append_left]
  | debit => trivial
  | cut => trivial
  | snapshot => trivial
  | lengthError => trivial

/-- What is read inside a buffer is what is read there when more bytes lie in front. -/
theorem Event.ReadsInside.shared_back (inside : event.ReadsInside back.length) :
    Event.Shared (Memory.ofBuffer back outside') (Memory.ofBuffer (front ++ back) outside)
      front.length False 0 event := by
  cases event with
  | read address count =>
      obtain ⟨lower, upper⟩ := inside
      refine ⟨fun index bound => ?_, False.elim⟩
      obtain ⟨start, rfl⟩ := Int.eq_ofNat_of_zero_le lower
      have near : start + index < back.length := by omega
      have within : start + front.length + index < (front ++ back).length := by
        rw [List.length_append]
        omega
      have there := Memory.ofBuffer_getElem outside within
      have here := Memory.ofBuffer_getElem outside' near
      push_cast at there here
      rw [there, here, List.getElem_append_right (by omega)]
      congr 1
      omega
  | debit => trivial
  | cut => trivial
  | snapshot => trivial
  | lengthError => trivial

theorem Event.shared_in_place (memory : Memory) (shift : Int) (event : Event) :
    Event.Shared (fun address => memory (address + shift)) memory shift False 0 event := by
  cases event with
  | read address count => exact ⟨fun index _ => by rw [Int.add_right_comm], False.elim⟩
  | debit => trivial
  | cut => trivial
  | snapshot => trivial
  | lengthError => trivial

end

namespace Context

/-- `decode` reads nothing outside its buffer. -/
def ReadsInside (context : Context) (buffer : List UInt8) (outside : Memory)
    (messages : List Message) : Prop :=
  ∀ fuel, ∀ event ∈ (context.decode fuel (Memory.ofBuffer buffer outside)
    (UInt64.ofNat buffer.length) messages).events, event.ReadsInside buffer.length

/-- `decode` reads nothing outside its buffer, and every pass of its loop goes on to the next
message until the buffer is used up. -/
structure Consumes (context : Context) (buffer : List UInt8) (outside : Memory)
    (messages : List Message) : Prop where
  inside : context.ReadsInside buffer outside messages
  whole : ∃ last, Reaches
    (decodePass (Memory.ofBuffer buffer outside) ((UInt64.ofNat buffer.length).toNat - 1))
    (context.start (UInt64.ofNat buffer.length) messages) last ∧ last.begin_ = buffer.length

/-- What `decode` records is what its loop records. -/
theorem events_loop {context : Context} {memory : Memory} {size : UInt64}
    {messages : List Message} {allowed : Event → Prop}
    (recorded : ∀ fuel, ∀ event ∈ (context.decode fuel memory size messages).events, allowed event)
    (fuel : Nat) :
    ∀ event ∈ (Traced.loop (decodePass memory (size.toNat - 1)) fuel
      (context.start size messages)).events, allowed event := by
  by_cases empty : size = 0
  · subst empty
    cases fuel with
    | zero => simp [Traced.loop, Traced.undefined]
    | succ fuel =>
        have past : ¬(context.start 0 messages).begin_ ≤ ((0 : UInt64).toNat : Int) - 1 := by
          simp [start]
        rw [Traced.loop, decodePass_of_past past]
        simp [Cursor.stop]
  · have here := recorded fuel
    rwa [decode, if_neg empty] at here

/-- A run in a memory where everything it reads lies `shift` further on is the same run. -/
theorem returns_iff_of_shared {memory memory' : Memory} {shift end_ : Int} (cursor : Cursor)
    (recorded : ∀ fuel, ∀ event ∈ (Traced.loop (decodePass memory end_) fuel cursor).events,
      Event.Shared memory memory' shift False 0 event) (result : Decoded) :
    Returns (decodePass memory' (end_ + shift)) { cursor with begin_ := cursor.begin_ + shift }
      result ↔ Returns (decodePass memory end_) cursor result := by
  have start : CursorsAhead shift False 0 0 cursor
      { cursor with begin_ := cursor.begin_ + shift } :=
    ⟨cursor.size, rfl, rfl, fun _ => rfl, False.elim, False.elim⟩
  have same : ∀ fuel, (Traced.loop (decodePass memory' (end_ + shift)) fuel
      { cursor with begin_ := cursor.begin_ + shift }).outcome =
        (Traced.loop (decodePass memory end_) fuel cursor).outcome := by
    intro fuel
    have passes : ∀ state state', CursorsAhead shift False 0 0 state state' →
        Mirrors (Event.Shared memory memory' shift False 0) Never
          (PassRel (CursorsAhead shift False 0 0) Eq) (decodePass memory end_ state)
          (decodePass memory' (end_ + shift + (0 : Nat)) state') :=
      fun state state' related => (decodePass_mirrors related).mono fun _ never => never.1
    have mirrored := (Mirrors.loop passes fuel start).outcome_eq (recorded fuel)
    rwa [Nat.cast_zero, Int.add_zero] at mirrored
  simp only [Returns, same]

/-- The decode of two buffers as one stands, after the messages of the first, where the decode of
the first ends, and has the second left. -/
theorem Consumes.joined {context : Context} {front back : List UInt8}
    {outsideFront : Memory} {messages : List Message}
    (consumes : context.Consumes front outsideFront messages) (outside : Memory)
    (small : (front ++ back).length < 2147483648) :
    ∃ middle : Decoded, context.Decodes (Memory.ofBuffer front outsideFront)
        (UInt64.ofNat front.length) messages middle ∧
      ∀ result, context.Decodes (Memory.ofBuffer (front ++ back) outside)
          (UInt64.ofNat (front ++ back).length) messages result ↔
        Returns (decodePass (Memory.ofBuffer (front ++ back) outside)
          ((UInt64.ofNat back.length).toNat - 1 + front.length))
          ⟨0 + front.length, UInt64.ofNat back.length, middle.messages, middle.context⟩ result := by
  obtain ⟨inside, last, reaches, whole⟩ := consumes
  have length : (front ++ back).length = front.length + back.length := List.length_append
  have frontSize : (UInt64.ofNat front.length).toNat = front.length := by
    rw [UInt64.toNat_ofNat', Nat.mod_eq_of_lt (by omega)]
  have backSize : (UInt64.ofNat back.length).toNat = back.length := by
    rw [UInt64.toNat_ofNat', Nat.mod_eq_of_lt (by omega)]
  have bothSize : (UInt64.ofNat (front ++ back).length).toNat = front.length + back.length := by
    rw [UInt64.toNat_ofNat', Nat.mod_eq_of_lt (by omega), length]
  have first : ∀ fuel, ∀ event ∈ (Traced.loop (decodePass (Memory.ofBuffer front outsideFront)
      ((UInt64.ofNat front.length).toNat - 1)) fuel
      (context.start (UInt64.ofNat front.length) messages)).events,
      Event.Shared (Memory.ofBuffer front outsideFront) (Memory.ofBuffer (front ++ back) outside)
        0 True front.length event := by
    intro fuel event member
    exact (events_loop inside fuel event member).shared_front
  have start : CursorsAhead 0 True front.length back.length
      (context.start (UInt64.ofNat front.length) messages)
      (context.start (UInt64.ofNat (front ++ back).length) messages) :=
    ⟨_, rfl, by simp only [Context.start]; omega, fun never => (never trivial).elim,
      fun _ => ⟨le_rfl, by simp only [Context.start]; omega⟩, fun _ => by omega⟩
  obtain ⟨_, reaches', size', rfl, ahead⟩ := Reaches.mirrored
    (fun state state' related => (decodePass_mirrors related).mono fun _ ends => ends.2)
    reaches first start
  have used := ahead.left trivial
  have rest : size' = UInt64.ofNat back.length := by
    apply UInt64.toNat_inj.mp
    rw [ahead.longer, backSize]
    omega
  have left : Returns (decodePass (Memory.ofBuffer front outsideFront)
      ((UInt64.ofNat front.length).toNat - 1)) last ⟨last.messages, last.context⟩ := by
    apply Returns.of_leave
    rw [decodePass_of_past (by omega)]
    rfl
  refine ⟨⟨last.messages, last.context⟩, decodes_iff.mpr (reaches.returns_iff.mpr left), ?_⟩
  intro result
  have ends : ((UInt64.ofNat (front ++ back).length).toNat : Int) - 1 =
      (UInt64.ofNat front.length).toNat - 1 + 0 + back.length := by omega
  have same : ((UInt64.ofNat front.length).toNat : Int) - 1 + 0 + back.length =
      (UInt64.ofNat back.length).toNat - 1 + front.length := by omega
  rw [decodes_iff, ends, reaches'.returns_iff, same, rest, whole, Int.add_zero, Int.zero_add]

/-- Decoding two buffers as one does what decoding them one after the other does, if the first is
consumed: the second may be decoded in place, or anywhere else if nothing outside it is read. -/
theorem decode_batched {context : Context} {front back : List UInt8}
    {outsideFront outside : Memory} {messages : List Message}
    (small : (front ++ back).length < 2147483648)
    (consumes : context.Consumes front outsideFront messages) :
    ∃ middle, context.Decodes (Memory.ofBuffer front outsideFront) (UInt64.ofNat front.length)
        messages middle ∧
      (∀ result, context.Decodes (Memory.ofBuffer (front ++ back) outside)
          (UInt64.ofNat (front ++ back).length) messages result ↔
        middle.context.Decodes
          (fun address => Memory.ofBuffer (front ++ back) outside (address + front.length))
          (UInt64.ofNat back.length) middle.messages result) ∧
      ∀ outsideBack, middle.context.ReadsInside back outsideBack middle.messages →
        ∀ result, context.Decodes (Memory.ofBuffer (front ++ back) outside)
            (UInt64.ofNat (front ++ back).length) messages result ↔
          middle.context.Decodes (Memory.ofBuffer back outsideBack) (UInt64.ofNat back.length)
            middle.messages result := by
  obtain ⟨middle, decoded, joined⟩ := consumes.joined outside small
  refine ⟨middle, decoded, ?_, ?_⟩
  · intro result
    rw [joined, decodes_iff]
    exact returns_iff_of_shared (middle.context.start (UInt64.ofNat back.length) middle.messages)
      (fun fuel event _ => event.shared_in_place _ _) result
  · intro outsideBack inside result
    rw [joined, decodes_iff]
    exact returns_iff_of_shared (middle.context.start (UInt64.ofNat back.length) middle.messages)
      (fun fuel event member => (events_loop inside fuel event member).shared_back) result

/-- One price in full. -/
def firstPrice : List UInt8 := [1, 0, 0, 0, 0, 128, 5, 0, 0, 0, 0, 0, 0, 0]

/-- A price in full for another instrument. -/
def secondPrice : List UInt8 := [1, 1, 0, 0, 0, 128, 6, 0, 0, 0, 0, 0, 0, 0]

theorem readsInside_firstPrice :
    (Context.new (Templates.ofList [priceTemplate])).ReadsInside firstPrice (fun _ => 0) [] := by
  intro fuel
  match fuel with
  | 0 => decide
  | 1 => decide
  | fuel + 2 =>
      have events : ((Context.new (Templates.ofList [priceTemplate])).decode (fuel + 2)
          (Memory.ofBuffer firstPrice fun _ => 0) (UInt64.ofNat firstPrice.length) []).events =
        ((Context.new (Templates.ofList [priceTemplate])).decode 2
          (Memory.ofBuffer firstPrice fun _ => 0) (UInt64.ofNat firstPrice.length) []).events := rfl
      rw [events]
      decide

/-- Two prices, in one buffer or in two. -/
theorem decode_batched_prices :
    ∃ middle, (Context.new (Templates.ofList [priceTemplate])).Decodes
        (Memory.ofBuffer firstPrice fun _ => 0) (UInt64.ofNat firstPrice.length) [] middle ∧
      (∀ result, (Context.new (Templates.ofList [priceTemplate])).Decodes
          (Memory.ofBuffer (firstPrice ++ secondPrice) fun _ => 0)
          (UInt64.ofNat (firstPrice ++ secondPrice).length) [] result ↔
        middle.context.Decodes
          (fun address => Memory.ofBuffer (firstPrice ++ secondPrice) (fun _ => 0)
            (address + firstPrice.length))
          (UInt64.ofNat secondPrice.length) middle.messages result) := by
  have small : (firstPrice ++ secondPrice).length < 2147483648 := by decide
  obtain ⟨middle, decoded, same, _⟩ :=
    decode_batched small ⟨readsInside_firstPrice, _, .step rfl (.refl _), rfl⟩
  exact ⟨middle, decoded, same⟩

end Context

end FlashForwarder
