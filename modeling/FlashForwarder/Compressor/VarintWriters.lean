import FlashForwarder.Compressor.VarintReaders
import FlashForwarder.Library.Overlay

/-!
# Writers and their buffers

The writers of the wire format as the stores that they make at `target`, with the length that they
return.  The bytes are those that `WireFormat` lists.  They are the shortest form of the value, and
the readers take the value back from them whatever follows.
-/

namespace FlashForwarder

open Varint Overlay

namespace WireFormat

/-! ## The writers -/

/-- What a writer leaves. -/
structure VarintWrite where
  /-- The returned length. -/
  ret : Nat
  /-- The bytes from `target` on. -/
  target : Nat → UInt8

/-- `WriteVarint32` -/
def writeVarint32Into (value : UInt32) (target : Nat → UInt8) : VarintWrite :=
  let target := Function.update target 0 (value ||| 0x80).toUInt8
  if value ≥ (1 : UInt32) <<< 7 then
    let target := Function.update target 1 ((value >>> 7) ||| 0x80).toUInt8
    if value ≥ (1 : UInt32) <<< 14 then
      let target := Function.update target 2 ((value >>> 14) ||| 0x80).toUInt8
      if value ≥ (1 : UInt32) <<< 21 then
        let target := Function.update target 3 ((value >>> 21) ||| 0x80).toUInt8
        if value ≥ (1 : UInt32) <<< 28 then
          ⟨5, Function.update target 4 (value >>> 28).toUInt8⟩
        else
          ⟨4, Function.update target 3 (target 3 &&& 0x7F)⟩
      else
        ⟨3, Function.update target 2 (target 2 &&& 0x7F)⟩
    else
      ⟨2, Function.update target 1 (target 1 &&& 0x7F)⟩
  else
    ⟨1, Function.update target 0 (target 0 &&& 0x7F)⟩

/-- The stores behind the labels `size10` to `size1`: the index and the byte. -/
def varintLabels (part0 part1 part2 : UInt32) : List (Nat × UInt8) :=
  [(9, ((part2 >>> 7) ||| 0x80).toUInt8),
    (8, (part2 ||| 0x80).toUInt8),
    (7, ((part1 >>> 21) ||| 0x80).toUInt8),
    (6, ((part1 >>> 14) ||| 0x80).toUInt8),
    (5, ((part1 >>> 7) ||| 0x80).toUInt8),
    (4, (part1 ||| 0x80).toUInt8),
    (3, ((part0 >>> 21) ||| 0x80).toUInt8),
    (2, ((part0 >>> 14) ||| 0x80).toUInt8),
    (1, ((part0 >>> 7) ||| 0x80).toUInt8),
    (0, (part0 ||| 0x80).toUInt8)]

/-- `WriteVarint64`: from the label of its size on it falls through all others. -/
def writeVarint64Into (value : UInt64) (target : Nat → UInt8) : VarintWrite :=
  let part0 := value.toUInt32
  let part1 := (value >>> 28).toUInt32
  let part2 := (value >>> 56).toUInt32
  let size := varintSize part0 part1 part2
  let target := storeAll ((varintLabels part0 part1 part2).drop (10 - size)) target
  ⟨size, Function.update target (size - 1) (target (size - 1) &&& 0x7F)⟩

/-- `WriteSignedVarint32` -/
def writeSignedVarint32Into (value : Int32) (target : Nat → UInt8) : VarintWrite :=
  writeVarint32Into (zigZagEncode32 value) target

/-- `WriteSignedVarint64` -/
def writeSignedVarint64Into (value : Int64) (target : Nat → UInt8) : VarintWrite :=
  writeVarint64Into (zigZagEncode64 value) target

/-- `ReadSignedVarint32`; a value is stored on failure, too. -/
def readSignedVarint32 (byteAt : Nat → Option UInt8) : VarintRead Int32 :=
  let read := readVarint32 byteAt
  ⟨read.ret, some (zigZagDecode32 (read.value.getD 0)), read.touched⟩

/-- `ReadSignedVarint64`; a value is stored on failure, too. -/
def readSignedVarint64 (byteAt : Nat → Option UInt8) : VarintRead Int64 :=
  let read := readVarint64 byteAt
  ⟨read.ret, some (zigZagDecode64 (read.value.getD 0)), read.touched⟩

/-- `VarintSize32` -/
def varintSize32 (value : UInt32) : Nat :=
  if value < (1 : UInt32) <<< 7 then 1
  else if value < (1 : UInt32) <<< 14 then 2
  else if value < (1 : UInt32) <<< 21 then 3
  else if value < (1 : UInt32) <<< 28 then 4
  else 5

/-- `VarintSize64` -/
def varintSize64 (value : UInt64) : Nat :=
  if value < (1 : UInt64) <<< 35 then
    if value < (1 : UInt64) <<< 7 then 1
    else if value < (1 : UInt64) <<< 14 then 2
    else if value < (1 : UInt64) <<< 21 then 3
    else if value < (1 : UInt64) <<< 28 then 4
    else 5
  else
    if value < (1 : UInt64) <<< 42 then 6
    else if value < (1 : UInt64) <<< 49 then 7
    else if value < (1 : UInt64) <<< 56 then 8
    else if value < (1 : UInt64) <<< 63 then 9
    else 10

/-! ## What is stored -/

variable (target : Nat → UInt8)

/-- `WriteVarint32` stores its bytes and nothing else. -/
theorem writeVarint32Into_eq (value : UInt32) : writeVarint32Into value target =
    ⟨(writeVarint32 value).length, overlay (writeVarint32 value) target⟩ := by
  unfold writeVarint32Into writeVarint32
  dsimp only
  split_ifs
  · rw [← storeAll_zipIdx]
    rfl
  all_goals
    -- The last byte is stored twice, the second time without its mark.
    rw [← storeAll_zipIdx, Function.update_self, Function.update_idem]
    rfl

/-- The labels stand from the last byte to the first. -/
theorem varintLabels_eq (part0 part1 part2 : UInt32) : varintLabels part0 part1 part2 =
    (((varintLabels part0 part1 part2).reverse.map Prod.snd).zipIdx.map Prod.swap).reverse := rfl

theorem length_writeVarint64_varintSize (value : UInt64) : (writeVarint64 value).length =
    varintSize value.toUInt32 (value >>> 28).toUInt32 (value >>> 56).toUInt32 := by
  obtain ⟨count, size, few, -⟩ := varintSize_spec value
  rw [writeVarint64, size, List.length_modify, List.length_take]
  exact Nat.min_eq_left few

/-- `WriteVarint64` stores its bytes and nothing else. -/
theorem writeVarint64Into_eq (value : UInt64) : writeVarint64Into value target =
    ⟨(writeVarint64 value).length, overlay (writeVarint64 value) target⟩ := by
  obtain ⟨count, size, few, -⟩ := varintSize_spec value
  have kept : 10 - (10 - (count + 1)) = count + 1 := by omega
  have whole : ∀ part0 part1 part2,
      ((varintLabels part0 part1 part2).reverse.map Prod.snd).length = 10 := fun _ _ _ => rfl
  rw [writeVarint64Into, varintLabels_eq, storeAll_drop_reverse, whole, size, kept,
    Nat.add_sub_cancel, update_overlay_modify (· &&& 0x7F) (by rw [List.length_take, whole]; omega)]
  have bytes : writeVarint64 value = (((varintLabels value.toUInt32 (value >>> 28).toUInt32
      (value >>> 56).toUInt32).reverse.map Prod.snd).take (count + 1)).modify count
        (· &&& 0x7F) := by
    rw [writeVarint64, size]
    rfl
  rw [length_writeVarint64_varintSize, size, bytes]

/-! ## Round trips -/

/-- A buffer that begins with what was written. -/
def VarintWrite.followedBy (written : VarintWrite) (rest : Nat → UInt8) : Nat → UInt8 :=
  fun index => if index < written.ret then written.target index else rest index

/-- Wherever a value is written and whatever follows, the reader returns the same value and the same
number of bytes, and looks at no others. -/
def RoundTrips {α : Type} (write : α → (Nat → UInt8) → VarintWrite)
    (read : (Nat → Option UInt8) → VarintRead α) : Prop :=
  ∀ (value : α) (target rest : Nat → UInt8),
    read (fun index => some ((write value target).followedBy rest index)) =
      ⟨(write value target).ret, some value, (write value target).ret⟩

theorem followedBy_overlay (bytes : List UInt8) (rest : Nat → UInt8) (index : Nat)
    (inside : index < bytes.length) :
    some ((⟨bytes.length, overlay bytes target⟩ : VarintWrite).followedBy rest index) =
      bytes[index]? := by
  rw [VarintWrite.followedBy, if_pos inside, List.getElem?_eq_getElem inside]
  exact congrArg some (overlay_of_lt inside)

theorem varint32_roundTrips : RoundTrips writeVarint32Into readVarint32 := by
  intro value target rest
  rw [writeVarint32Into_eq]
  exact readVarint32_writeVarint32 value (followedBy_overlay target _ rest)

theorem varint64_roundTrips : RoundTrips writeVarint64Into readVarint64 := by
  intro value target rest
  rw [writeVarint64Into_eq]
  exact readVarint64_writeVarint64 value (followedBy_overlay target _ rest)

theorem signedVarint32_roundTrips : RoundTrips writeSignedVarint32Into readSignedVarint32 := by
  intro value target rest
  have unsigned := varint32_roundTrips (zigZagEncode32 value) target rest
  rw [readSignedVarint32, writeSignedVarint32Into, unsigned]
  simp only [Option.getD_some, zigZagDecode32_zigZagEncode32]

theorem signedVarint64_roundTrips : RoundTrips writeSignedVarint64Into readSignedVarint64 := by
  intro value target rest
  have unsigned := varint64_roundTrips (zigZagEncode64 value) target rest
  rw [readSignedVarint64, writeSignedVarint64Into, unsigned]
  simp only [Option.getD_some, zigZagDecode64_zigZagEncode64]

/-- What each writer wrote is read back by its reader. -/
theorem varints_roundTrip :
    RoundTrips writeVarint32Into readVarint32 ∧ RoundTrips writeVarint64Into readVarint64 ∧
      RoundTrips writeSignedVarint32Into readSignedVarint32 ∧
      RoundTrips writeSignedVarint64Into readSignedVarint64 :=
  ⟨varint32_roundTrips, varint64_roundTrips, signedVarint32_roundTrips,
    signedVarint64_roundTrips⟩

example : readSignedVarint64 (fun index => some
    ((writeSignedVarint64Into (-9223372036854775808) fun _ => 0).followedBy (fun _ => 255) index)) =
      ⟨10, some (-9223372036854775808), 10⟩ := by decide

/-! ## Sizes -/

theorem borders64 :
    ((1 : UInt64) <<< 7).toNat = 2 ^ 7 ∧ ((1 : UInt64) <<< 14).toNat = 2 ^ 14 ∧
      ((1 : UInt64) <<< 21).toNat = 2 ^ 21 ∧ ((1 : UInt64) <<< 28).toNat = 2 ^ 28 ∧
      ((1 : UInt64) <<< 35).toNat = 2 ^ 35 ∧ ((1 : UInt64) <<< 42).toNat = 2 ^ 42 ∧
      ((1 : UInt64) <<< 49).toNat = 2 ^ 49 ∧ ((1 : UInt64) <<< 56).toNat = 2 ^ 56 ∧
      ((1 : UInt64) <<< 63).toNat = 2 ^ 63 :=
  ⟨rfl, rfl, rfl, rfl, rfl, rfl, rfl, rfl, rfl⟩

theorem isGroupCount_varintSize32 (value : UInt32) :
    IsGroupCount value.toNat (varintSize32 value) := by
  have small := value.toNat_lt
  unfold varintSize32
  simp only [UInt32.lt_iff_toNat_lt, borders]
  split_ifs <;> exact isGroupCount_succ_iff.mpr ⟨by omega, by omega⟩

theorem isGroupCount_varintSize64 (value : UInt64) :
    IsGroupCount value.toNat (varintSize64 value) := by
  have small := value.toNat_lt
  unfold varintSize64
  simp only [UInt64.lt_iff_toNat_lt, borders64]
  split_ifs <;> exact isGroupCount_succ_iff.mpr ⟨by omega, by omega⟩

theorem length_writeVarint32_eq (value : UInt32) :
    (writeVarint32 value).length = varintSize32 value := by
  unfold writeVarint32 varintSize32
  simp only [ge_iff_le, ← UInt32.not_lt, ite_not]
  split_ifs <;> rfl

theorem length_writeVarint64_eq (value : UInt64) :
    (writeVarint64 value).length = varintSize64 value := by
  rw [length_writeVarint64_varintSize]
  exact (isGroupCount_varintSize value).unique (isGroupCount_varintSize64 value)

theorem writeVarint32_eq (value : UInt32) : writeVarint32 value = writeVarint64 value.toUInt64 := by
  have widened : value.toUInt64.toNat = value.toNat := UInt32.toNat_toUInt64 value
  refine (writeVarint32_isVarint value).eq_of_length (writeVarint64_isVarint value.toUInt64)
    widened.symm ?_
  have least := isGroupCount_varintSize64 value.toUInt64
  rw [widened] at least
  rw [length_writeVarint32_eq, length_writeVarint64_eq]
  exact (isGroupCount_varintSize32 value).unique least

/-! ## The shortest form -/

/-- All that the two readers of 32-bit values return. -/
def reads32 : Set (VarintRead UInt32) :=
  {read | ∃ buffer : Nat → UInt8, read = readVarint32 (fun index => some (buffer index)) ∨
    ∃ size, read = readVarint32Safe buffer size}

/-- All that the two readers of 64-bit values return. -/
def reads64 : Set (VarintRead UInt64) :=
  {read | ∃ buffer : Nat → UInt8, read = readVarint64 (fun index => some (buffer index)) ∨
    ∃ size, read = readVarint64Safe buffer size}

/-- The returned length is the one that was told, the least number of groups that hold the value,
and no reader takes the value from fewer bytes. -/
structure SizedExactly {α : Type} (value : α) (number told : Nat) (reads : Set (VarintRead α))
    (written : VarintWrite) : Prop where
  told : written.ret = told
  least : IsGroupCount number written.ret
  shortest : ∀ read ∈ reads, read.value = some value → (written.ret : Int) ≤ read.ret

/-- What is accepted has at least the groups that its value needs: the cut to the type of the value
makes no number greater. -/
theorem ReadsExactly.shortest {α : Type} {cut : Nat → α} {limit : Nat} {buffer : Nat → UInt8}
    {size : Int} {read : VarintRead α} (exact_ : ReadsExactly cut limit buffer size read)
    {value : α} (accepted : read.value = some value) {toNat : α → Nat}
    (shrinks : ∀ number, toNat (cut number) ≤ number) {count : Nat}
    (least : IsGroupCount (toNat value) count) : (count : Int) ≤ read.ret := by
  by_cases some_ : ∃ n : Nat, 0 < n ∧ read.ret = n
  · obtain ⟨n, positive, ret⟩ := some_
    obtain ⟨-, -, ends⟩ := (exact_.accepted n positive).mp ret
    rw [exact_.value n positive ret, Option.some_inj] at accepted
    have run := ends.isVarint.lt_pow
    rw [List.length_map, List.length_range] at run
    have enough : count ≤ n := by
      refine least.le_of_lt_pow positive (lt_of_le_of_lt ?_ run)
      rw [← accepted]
      exact shrinks _
    omega
  · rw [(exact_.refused fun n positive ret => some_ ⟨n, positive, ret⟩).2] at accepted
    cases accepted

/-- A writer whose length is the exact size, against readers that read exactly. -/
theorem sizedExactly_of {α : Type} {cut : Nat → α} {toNat : α → Nat} {limit : Nat}
    {reads : Set (VarintRead α)} {value : α} {told : Nat} {written : VarintWrite}
    (shrinks : ∀ number, toNat (cut number) ≤ number)
    (exact_ : ∀ read ∈ reads, ∃ buffer size, ReadsExactly cut limit buffer size read)
    (ret : written.ret = told) (least : IsGroupCount (toNat value) told) :
    SizedExactly value (toNat value) told reads written := by
  refine ⟨ret, ret ▸ least, fun read member accepted => ?_⟩
  obtain ⟨buffer, size, reader⟩ := exact_ read member
  rw [ret]
  exact reader.shortest accepted shrinks least

theorem reads32_exact : ∀ read ∈ reads32,
    ∃ buffer size, ReadsExactly UInt32.ofNat 5 buffer size read := by
  rintro read ⟨buffer, rfl | ⟨size, rfl⟩⟩
  · rw [readVarint32_eq_safe (Or.inr (Int.le_refl 5))]
    exact ⟨buffer, 5, readVarint32Safe_exact buffer 5⟩
  · exact ⟨buffer, size, readVarint32Safe_exact buffer size⟩

theorem reads64_exact : ∀ read ∈ reads64,
    ∃ buffer size, ReadsExactly UInt64.ofNat 10 buffer size read := by
  rintro read ⟨buffer, rfl | ⟨size, rfl⟩⟩
  · rw [readVarint64_eq_safe (Or.inr (Int.le_refl 10))]
    exact ⟨buffer, 10, readVarint64Safe_exact buffer 10⟩
  · exact ⟨buffer, size, readVarint64Safe_exact buffer size⟩

theorem writeVarint32Into_sizedExactly (value : UInt32) : SizedExactly value value.toNat
    (varintSize32 value) reads32 (writeVarint32Into value target) := by
  have shrinks : ∀ number, (UInt32.ofNat number).toNat ≤ number := by
    intro number
    rw [UInt32.toNat_ofNat']
    exact Nat.mod_le _ _
  refine sizedExactly_of shrinks reads32_exact ?_ (isGroupCount_varintSize32 value)
  rw [writeVarint32Into_eq, length_writeVarint32_eq]

theorem writeVarint64Into_sizedExactly (value : UInt64) : SizedExactly value value.toNat
    (varintSize64 value) reads64 (writeVarint64Into value target) := by
  have shrinks : ∀ number, (UInt64.ofNat number).toNat ≤ number := by
    intro number
    rw [UInt64.toNat_ofNat']
    exact Nat.mod_le _ _
  refine sizedExactly_of shrinks reads64_exact ?_ (isGroupCount_varintSize64 value)
  rw [writeVarint64Into_eq, length_writeVarint64_eq]

/-- The writer for 32 bits leaves what the writer for 64 bits leaves for the same number, and both
return the exact size. -/
theorem writers_exact (target : Nat → UInt8) :
    (∀ value : UInt32, writeVarint32Into value target = writeVarint64Into value.toUInt64 target) ∧
    (∀ value : UInt32, SizedExactly value value.toNat (varintSize32 value) reads32
      (writeVarint32Into value target)) ∧
    ∀ value : UInt64, SizedExactly value value.toNat (varintSize64 value) reads64
      (writeVarint64Into value target) := by
  refine ⟨fun value => ?_, writeVarint32Into_sizedExactly target,
    writeVarint64Into_sizedExactly target⟩
  rw [writeVarint32Into_eq, writeVarint64Into_eq, writeVarint32_eq]

end WireFormat

end FlashForwarder
