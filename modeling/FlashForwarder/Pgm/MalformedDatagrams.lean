import FlashForwarder.Library.Traced
import FlashForwarder.Pgm.Receiver

/-!
# Malformed datagrams

`InEvent` takes lengths and offsets from the network.  Here it is followed with the pointers and the
sizes that it computes, and with the assertions it makes about them; the sizes wrap around as
`size_t` does.
-/

namespace FlashForwarder

open Traced

/-- A datagram as `Receive` gives it, with whatever lies around it in memory. -/
structure Delivered where
  /-- The bytes. -/
  bytes : List UInt8
  /-- The bytes on both sides. -/
  outside : Memory
  /-- There is one at least. -/
  filled : 0 < bytes.length
  /-- The length is returned as an `int`. -/
  fits : bytes.length < 2147483648

/-- The memory a datagram lies in. -/
def Delivered.memory (delivered : Delivered) : Memory :=
  Memory.ofBuffer delivered.bytes delivered.outside

/-- What `InEvent` does that depends on lengths and offsets. -/
inductive Check where
  /-- `BOOST_ASSERT` -/
  | assert (holds : Bool)
  /-- Bytes are read at an offset from the start of the datagram. -/
  | read (address : Int) (count : Nat)
  /-- An amount is taken off `insize_`. -/
  | debit (insize amount : UInt64)
  /-- `Parse(begin, end)` -/
  | parse (begin_ end_ : Int)

/-- What is as it should be: the assertion holds, the read and the range are inside the datagram,
the range after its header, and `insize_` does not wrap. -/
def Check.Passes (length : Nat) : Check → Prop
  | assert holds => holds = true
  | read address count => 0 ≤ address ∧ address + count ≤ length
  | debit insize amount => amount ≤ insize
  | parse begin_ end_ => (headerSize : Int) ≤ begin_ ∧ begin_ ≤ end_ ∧ end_ ≤ length

theorem Delivered.toNat_length (delivered : Delivered) :
    (UInt64.ofNat delivered.bytes.length).toNat = delivered.bytes.length := by
  have fits := delivered.fits
  rw [UInt64.toNat_ofNat']
  omega

namespace PGMReceiver

variable {τ : Type} (receiver : PGMReceiver τ) (tsi : τ) (delivered : Delivered)

/-- The part of `InEvent` behind the header: the range that is for the parser, if there is one. -/
def locate (offset : UInt16) (index : UInt32) (insize : UInt64) : Traced Check Unit :=
  if (receiver.identify tsi index).1.joined then
    emit (.parse 6 (6 + insize.toNat))
  else if offset = kNonExistOffset then
    return ()
  else do
    emit (.assert (decide (offset.toUInt64 ≤ insize)))
    emit (.debit insize offset.toUInt64)
    emit (.parse (6 + offset.toNat) (6 + offset.toNat + (insize - offset.toUInt64).toNat))

/-- What `InEvent` does with a datagram, up to the call of the parser. -/
def inspect : Traced Check Unit := do
  let insize := UInt64.ofNat delivered.bytes.length
  emit (.assert (decide (insize ≥ 6)))
  emit (.read 0 2)
  let offset := loadUint16 (delivered.memory.read 0 2) 0 &&& kNonExistOffset
  emit (.read 2 4)
  let index := loadUint32 (delivered.memory.read 2 4) 0
  emit (.debit insize 6)
  receiver.locate tsi offset index (insize - 6)

/-- No assertion fails, nothing outside the datagram is read or given to the parser, and `insize_`
does not wrap. -/
def Unharmed : Prop :=
  ∀ check ∈ (receiver.inspect tsi delivered).events, check.Passes delivered.bytes.length

/-- The peer is not known, or it is not joined, or a gap ends its stream. -/
def Unjoined (index : UInt32) : Prop :=
  ∀ peer, receiver.peers tsi = some peer → peer.joined = true →
    peer.lastIndex ≠ 0 ∧ peer.lastIndex + 1 ≠ index

variable {receiver} {tsi} {delivered}

theorem unjoined_iff {index : UInt32} :
    (receiver.identify tsi index).1.joined = false ↔ receiver.Unjoined tsi index := by
  rw [identify, Unjoined]
  cases receiver.peers tsi with
  | none => simp
  | some peer =>
      dsimp only
      rw [PeerInfo.follow]
      split
      · rename_i gap
        simp only [PeerInfo.disjoin, true_iff]
        rintro _ ⟨⟩ -
        exact ⟨Ne.symm gap.1, gap.2⟩
      · rename_i straight
        constructor
        · rintro apart _ ⟨⟩ joined
          exact absurd joined (Bool.eq_false_iff.mp apart)
        · intro ended
          by_contra joined
          have lost := ended peer rfl (by simpa using joined)
          exact straight ⟨Ne.symm lost.1, lost.2⟩

theorem long_of_unharmed (unharmed : receiver.Unharmed tsi delivered) :
    headerSize ≤ delivered.bytes.length := by
  have first := unharmed (.assert (decide (UInt64.ofNat delivered.bytes.length ≥ 6)))
    List.mem_cons_self
  rw [Check.Passes, decide_eq_true_iff, ge_iff_le, UInt64.le_iff_toNat_le,
    delivered.toNat_length] at first
  exact first

section

variable (long : headerSize ≤ delivered.bytes.length)

include long

theorem offset_inside :
    loadUint16 (delivered.memory.read 0 2) 0 &&& kNonExistOffset = offsetOf delivered.bytes := by
  have read : delivered.memory.read (0 : Nat) 2 = (delivered.bytes.drop 0).take 2 :=
    Memory.read_ofBuffer (Nat.le_trans (by decide) long)
  rw [offsetOf, loadUint16, loadUint16, show delivered.memory.read 0 2 = _ from read]
  simp [List.take_take]

theorem index_inside : loadUint32 (delivered.memory.read 2 4) 0 = indexOf delivered.bytes := by
  have read : delivered.memory.read (2 : Nat) 4 = (delivered.bytes.drop 2).take 4 :=
    Memory.read_ofBuffer (Nat.le_trans (by decide) long)
  rw [indexOf, loadUint32, loadUint32, show delivered.memory.read 2 4 = _ from read]
  simp [List.take_take]

theorem toNat_insize : (UInt64.ofNat delivered.bytes.length - 6).toNat =
    delivered.bytes.length - headerSize := by
  have fits := delivered.fits
  have size := delivered.toNat_length
  rw [headerSize] at long ⊢
  rw [UInt64.toNat_sub_of_le, size]
  · rfl
  · rw [UInt64.le_iff_toNat_le, size]
    exact long

theorem events_inspect (receiver : PGMReceiver τ) (tsi : τ) :
    (receiver.inspect tsi delivered).events =
      .assert (decide (UInt64.ofNat delivered.bytes.length ≥ 6)) :: .read 0 2 :: .read 2 4 ::
        .debit (UInt64.ofNat delivered.bytes.length) 6 ::
          (receiver.locate tsi (offsetOf delivered.bytes) (indexOf delivered.bytes)
            (UInt64.ofNat delivered.bytes.length - 6)).events := by
  rw [inspect]
  simp only [events_emit_bind, offset_inside long, index_inside long]

theorem unharmed_header (receiver : PGMReceiver τ) (tsi : τ) :
    receiver.Unharmed tsi delivered ↔
      ∀ check ∈ (receiver.locate tsi (offsetOf delivered.bytes)
        (indexOf delivered.bytes) (UInt64.ofNat delivered.bytes.length - 6)).events,
        check.Passes delivered.bytes.length := by
  have size : 6 ≤ UInt64.ofNat delivered.bytes.length := by
    rw [UInt64.le_iff_toNat_le, delivered.toNat_length]
    exact long
  rw [Unharmed, events_inspect long]
  simp only [List.forall_mem_cons]
  have read : ((2 : Nat) : Int) + (4 : Nat) ≤ delivered.bytes.length := Int.ofNat_le.mpr long
  refine ⟨fun all => all.2.2.2.2, fun later => ⟨?_, ⟨by decide, ?_⟩, ⟨by decide, ?_⟩, size, later⟩⟩
  · exact decide_eq_true size
  · exact Int.le_trans (by decide) read
  · exact read

/-- A stream that is joined is given all that is behind the header. -/
theorem locate_joined {receiver : PGMReceiver τ} {tsi : τ} {offset : UInt16} {index : UInt32}
    (joined : (receiver.identify tsi index).1.joined = true) :
    ∀ check ∈ (receiver.locate tsi offset index
        (UInt64.ofNat delivered.bytes.length - 6)).events,
      check.Passes delivered.bytes.length := by
  rw [locate, if_pos joined, toNat_insize long]
  rintro check member
  rw [headerSize] at long
  obtain rfl := List.mem_singleton.mp member
  refine ⟨Int.le_refl 6, ?_, ?_⟩ <;> rw [headerSize] <;> omega

/-- A stream that is to be joined is given what is behind the offset, if that is not too far. -/
theorem locate_unjoined {receiver : PGMReceiver τ} {tsi : τ} {offset : UInt16} {index : UInt32}
    (unjoined : (receiver.identify tsi index).1.joined = false) :
    (∀ check ∈ (receiver.locate tsi offset index
        (UInt64.ofNat delivered.bytes.length - 6)).events,
      check.Passes delivered.bytes.length) ↔
      offset = kNonExistOffset ∨ headerSize + offset.toNat ≤ delivered.bytes.length := by
  have size := toNat_insize long
  have within : offset.toUInt64 ≤ UInt64.ofNat delivered.bytes.length - 6 ↔
      headerSize + offset.toNat ≤ delivered.bytes.length := by
    rw [UInt64.le_iff_toNat_le, size, UInt16.toNat_toUInt64]
    omega
  rw [locate, if_neg (Bool.eq_false_iff.mp unjoined)]
  by_cases nowhere : offset = kNonExistOffset
  · rw [if_pos nowhere]
    exact iff_of_true (fun check member => absurd member (by simp)) (Or.inl nowhere)
  · rw [if_neg nowhere, or_iff_right nowhere, ← within]
    simp only [events_emit_bind, List.forall_mem_cons]
    refine ⟨fun all => all.2.1, fun inside => ⟨decide_eq_true inside, inside, ?_⟩⟩
    rintro check member
    obtain rfl := List.mem_singleton.mp member
    have bound := within.mp inside
    rw [Check.Passes, UInt64.toNat_sub_of_le _ _ inside, size, UInt16.toNat_toUInt64]
    rw [headerSize] at bound ⊢
    omega

end

/-- A datagram does no harm just if it has a header and, where its stream is to be joined, the
offset in the header lies inside it. -/
theorem unharmed_iff (receiver : PGMReceiver τ) (tsi : τ) (delivered : Delivered) :
    receiver.Unharmed tsi delivered ↔ headerSize ≤ delivered.bytes.length ∧
      (receiver.Unjoined tsi (indexOf delivered.bytes) →
        offsetOf delivered.bytes = kNonExistOffset ∨
          headerSize + (offsetOf delivered.bytes).toNat ≤ delivered.bytes.length) := by
  by_cases long : headerSize ≤ delivered.bytes.length
  · rw [and_iff_right long]
    rw [unharmed_header long]
    cases joined : (receiver.identify tsi (indexOf delivered.bytes)).1.joined with
    | true =>
        refine iff_of_true (locate_joined long joined) fun unjoined => ?_
        rw [unjoined_iff.mpr unjoined] at joined
        exact absurd joined (by decide)
    | false =>
        rw [locate_unjoined long joined]
        exact ⟨fun inside _ => inside, fun inside => inside (unjoined_iff.mp joined)⟩
  · exact iff_of_false (fun unharmed => long (long_of_unharmed unharmed))
      fun harmless => long harmless.1

/-- A datagram of one byte does not pass the first assertion. -/
theorem single_byte_harms :
    ¬(init : PGMReceiver Unit).Unharmed () ⟨[0], fun _ => 0, by decide, by decide⟩ := by
  intro unharmed
  have failed : false = true := unharmed (.assert false) List.mem_cons_self
  exact absurd failed (by decide)

/-- The range that is given to the parser holds the bytes that a parser is fed. -/
theorem join_of_parse (options : ReceiverOptions) {begin_ end_ : Int}
    (unharmed : receiver.Unharmed tsi delivered)
    (parses : .parse begin_ end_ ∈ (receiver.inspect tsi delivered).events) :
    ∃ peer, join options (receiver.identify tsi (indexOf delivered.bytes)).1 delivered.bytes =
      some (peer, some (delivered.memory.read begin_ (end_ - begin_).toNat)) := by
  have long := long_of_unharmed unharmed
  have size := toNat_insize long
  have harmless := (unharmed_header long receiver tsi).mp unharmed
  rw [events_inspect long] at parses
  simp only [List.mem_cons, reduceCtorEq, false_or] at parses
  have slice : ∀ offset, headerSize + offset ≤ delivered.bytes.length →
      delivered.memory.read (headerSize + offset : Nat)
          (delivered.bytes.length - headerSize - offset) =
        (payloadOf delivered.bytes).drop offset := by
    intro offset inside
    rw [Delivered.memory, Memory.read_ofBuffer (by omega), payloadOf, List.drop_drop,
      List.take_of_length_le (by rw [List.length_drop]; omega)]
  cases joined : (receiver.identify tsi (indexOf delivered.bytes)).1.joined with
  | true =>
      rw [locate, if_pos joined] at parses
      obtain ⟨rfl, rfl⟩ := Check.parse.inj (List.mem_singleton.mp parses)
      have whole := slice 0 long
      rw [List.drop_zero] at whole
      rw [join, if_pos joined, ← whole]
      simp [size, headerSize]
  | false =>
      have inside := (locate_unjoined long joined).mp harmless
      have apart : ¬(receiver.identify tsi (indexOf delivered.bytes)).1.joined = true :=
        Bool.eq_false_iff.mp joined
      rw [locate, if_neg apart] at parses
      split at parses
      · exact absurd parses (by simp)
      · rename_i somewhere
        simp only [events_emit_bind, List.mem_cons, reduceCtorEq, false_or] at parses
        obtain ⟨rfl, rfl⟩ := Check.parse.inj (List.mem_singleton.mp parses)
        have bound := inside.resolve_left somewhere
        have fits : (offsetOf delivered.bytes).toNat ≤ (payloadOf delivered.bytes).length := by
          rw [payloadOf, List.length_drop]
          omega
        have le : (offsetOf delivered.bytes).toUInt64 ≤
            UInt64.ofNat delivered.bytes.length - 6 := by
          rw [UInt64.le_iff_toNat_le, size, UInt16.toNat_toUInt64]
          omega
        have amount : ∀ begin_ : Int, (begin_ + (UInt64.ofNat delivered.bytes.length - 6 -
            (offsetOf delivered.bytes).toUInt64).toNat - begin_).toNat =
            delivered.bytes.length - headerSize - (offsetOf delivered.bytes).toNat := by
          intro begin_
          rw [UInt64.toNat_sub_of_le _ _ le, size, UInt16.toNat_toUInt64]
          omega
        rw [join, if_neg apart, if_neg somewhere, if_pos fits, ← slice _ bound, amount]
        exact ⟨_, rfl⟩

end PGMReceiver

end FlashForwarder
