import FlashForwarder.Pgm.Receiver
import Mathlib.Data.List.Chain
import Mathlib.Data.List.Induction

/-!
# Loss statistics

What the counters of missed packets say about the packets of one peer.  The first gap after a peer
became known goes unnoticed, and every later one is counted from index 0 on, because `last_index` is
set to 0 before it is used.
-/

namespace FlashForwarder

/-- How many indices are skipped between the first and the last one of a sequence. -/
def skipped : List UInt32 → Nat
  | index :: next :: indices => (next - index - 1).toNat + skipped (next :: indices)
  | _ => 0

/-- No index is skipped. -/
def Consecutive (indices : List UInt32) : Prop := indices.IsChain fun index next => next = index + 1

theorem skipped_concat (earlier : List UInt32) (last index : UInt32) :
    skipped (earlier ++ [last, index]) =
      skipped (earlier ++ [last]) + (index - last - 1).toNat := by
  induction earlier with
  | nil => simp [skipped]
  | cons first earlier ih =>
      cases earlier with
      | nil => simp [skipped]
      | cons next earlier =>
          simp only [List.cons_append, skipped] at ih ⊢
          omega

theorem consecutive_concat {earlier : List UInt32} {last index : UInt32} :
    Consecutive (earlier ++ [last, index]) ↔
      Consecutive (earlier ++ [last]) ∧ index = last + 1 := by
  have shape : earlier ++ [last, index] = earlier ++ [last] ++ [index] := by simp
  rw [Consecutive, Consecutive, shape, List.isChain_append]
  simp

theorem skipped_of_consecutive {indices : List UInt32} (consecutive : Consecutive indices) :
    skipped indices = 0 := by
  induction indices with
  | nil => rfl
  | cons index indices ih =>
      cases indices with
      | nil => rfl
      | cons next indices =>
          obtain ⟨rfl, later⟩ := List.isChain_cons_cons.mp consecutive
          rw [skipped, ih later, show index + 1 - index - 1 = 0 by grind]
          rfl

namespace PeerInfo

variable {peer : PeerInfo} {index last : UInt32}

theorem missedCnt_follow :
    (peer.follow index).1.missedCnt = peer.missedCnt + (peer.follow index).2 := by
  rw [follow]
  split
  · rfl
  · exact (UInt32.add_zero _).symm

theorem lastIndex_follow : (peer.follow index).1.lastIndex = index := by
  rw [follow]
  split <;> rfl

/-- Nothing is counted when the index follows the last one. -/
theorem follow_next (known : peer.lastIndex = 0 ∨ peer.lastIndex = last) :
    (peer.follow (last + 1)).2 = 0 := by
  rw [follow, if_neg]
  rintro ⟨seen, gap⟩
  rcases known with zero | same
  · exact seen zero.symm
  · exact gap (by rw [same])

/-- What is counted at a gap is never what was skipped. -/
theorem eq_next_of_counted (known : peer.lastIndex = 0 ∨ peer.lastIndex = last)
    (count : (peer.follow index).2 = index - last - 1)
    (total : ((peer.follow index).2.toInt32.toInt64.toUInt64).toNat = (index - last - 1).toNat) :
    index = last + 1 := by
  rw [← count] at total
  rw [follow] at count total
  split at count
  · rename_i gap
    rw [if_pos gap] at total
    have same : peer.lastIndex = last := known.resolve_left (Ne.symm gap.1)
    have counted : peer.disjoin.missed index = index - last - 1 := count
    have extended : ((peer.disjoin.missed index).toInt32.toInt64.toUInt64).toNat =
      (peer.disjoin.missed index).toNat := total
    rw [missed, show peer.disjoin.lastIndex = 0 from rfl] at counted extended
    by_cases first : index = 0
    · -- the count of a gap that ends at index 0 is -2, and is extended with its sign
      subst first
      exact absurd extended (by decide)
    · rw [if_pos (UInt32.pos_iff_ne_zero.mpr first)] at counted
      have start : last = 0 := by grind
      exact absurd start.symm (same ▸ gap.1)
  · have none : 0 = index - last - 1 := count
    grind

end PeerInfo

namespace PGMReceiver

variable {τ : Type} [DecidableEq τ] (options : ReceiverOptions) (tsi : τ)

/-- The datagrams of a peer are received one after the other, each at its time. -/
def packets : PGMReceiver τ → List (List UInt8 × Int64) → Option (PGMReceiver τ) :=
  List.foldlM fun receiver arrival =>
    (receiver.packet options tsi arrival.1 arrival.2).map Prod.snd

/-- The indices of some datagrams. -/
def indices (datagrams : List (List UInt8 × Int64)) : List UInt32 :=
  datagrams.map fun arrival => indexOf arrival.1

/-- After each datagram both counters are at the number of indices skipped by then. -/
def Counted (datagrams : List (List UInt8 × Int64)) : Prop :=
  ∀ earlier later, datagrams = earlier ++ later → earlier ≠ [] →
    ∀ receiver, packets options tsi init earlier = some receiver →
      receiver.totalMissedPackets.toNat = skipped (indices earlier) ∧
        ∃ peer, receiver.peers tsi = some peer ∧ peer.missedCnt.toNat = skipped (indices earlier)

variable {options} {tsi} {receiver next : PGMReceiver τ} {bytes : List UInt8} {timestamp : Int64}
  {deliveries : List (Delivery τ)}

theorem join_counts {peer peer' : PeerInfo} {given : Option (List UInt8)}
    (joined : join options peer bytes = some (peer', given)) :
    peer'.missedCnt = peer.missedCnt ∧ peer'.lastIndex = peer.lastIndex := by
  rw [join] at joined
  split at joined
  · obtain ⟨rfl, -⟩ := Prod.mk.inj (Option.some_inj.mp joined)
    exact ⟨rfl, rfl⟩
  · split at joined
    · obtain ⟨rfl, -⟩ := Prod.mk.inj (Option.some_inj.mp joined)
      exact ⟨rfl, rfl⟩
    · split at joined
      · obtain ⟨rfl, -⟩ := Prod.mk.inj (Option.some_inj.mp joined)
        exact ⟨rfl, rfl⟩
      · exact absurd joined (by simp)

/-- Only an error of the parser touches `last_index`. -/
theorem feed_counts {peer peer' : PeerInfo} {parser : Parser}
    (fed : feed options peer bytes = some (parser, peer')) :
    peer'.missedCnt = peer.missedCnt ∧
      (peer'.lastIndex = 0 ∨ peer'.lastIndex = peer.lastIndex) := by
  rw [feed] at fed
  obtain ⟨instance_, -, rest⟩ := Option.bind_eq_some_iff.mp fed
  obtain ⟨-, rfl⟩ := Prod.mk.inj (Option.some_inj.mp rest)
  split
  · exact ⟨rfl, Or.inl rfl⟩
  · exact ⟨rfl, Or.inr rfl⟩

/-- What a datagram does to the counters of its peer. -/
theorem packet_counts
    (done : receiver.packet options tsi bytes timestamp = some (deliveries, next)) :
    ∃ peer, next.peers tsi = some peer ∧
      next.totalMissedPackets = (receiver.identify tsi (indexOf bytes)).2.totalMissedPackets ∧
      peer.missedCnt = (receiver.identify tsi (indexOf bytes)).1.missedCnt ∧
      (peer.lastIndex = 0 ∨
        peer.lastIndex = (receiver.identify tsi (indexOf bytes)).1.lastIndex) := by
  have same : (PGMReceiver.identify
        { receiver with
          totalReceivedBytes := receiver.totalReceivedBytes + UInt64.ofNat bytes.length }
        tsi (indexOf bytes)).1 = (receiver.identify tsi (indexOf bytes)).1 ∧
      (PGMReceiver.identify
        { receiver with
          totalReceivedBytes := receiver.totalReceivedBytes + UInt64.ofNat bytes.length }
        tsi (indexOf bytes)).2.totalMissedPackets =
        (receiver.identify tsi (indexOf bytes)).2.totalMissedPackets := by
    rw [identify, identify]
    cases receiver.peers tsi <;> exact ⟨rfl, rfl⟩
  rw [packet] at done
  split at done
  · exact absurd done (by simp)
  · obtain ⟨peer, receiver₁, identified⟩ : ∃ peer receiver₁, PGMReceiver.identify
        { receiver with
          totalReceivedBytes := receiver.totalReceivedBytes + UInt64.ofNat bytes.length }
        tsi (indexOf bytes) = (peer, receiver₁) := ⟨_, _, rfl⟩
    rw [identified] at same
    rw [← same.1, ← same.2]
    dsimp only at done
    rw [identified] at done
    obtain ⟨⟨peer', given⟩, joined, rest⟩ := Option.bind_eq_some_iff.mp done
    obtain ⟨count, last⟩ := join_counts joined
    cases given with
    | none =>
        obtain ⟨-, rfl⟩ := Prod.mk.inj (Option.some_inj.mp rest)
        exact ⟨peer', Function.update_self .., rfl, count, Or.inr last⟩
    | some given =>
        obtain ⟨⟨parser, peer''⟩, fed, rest⟩ := Option.bind_eq_some_iff.mp rest
        obtain ⟨-, rfl⟩ := Prod.mk.inj (Option.some_inj.mp rest)
        obtain ⟨count', last'⟩ := feed_counts fed
        exact ⟨peer'', Function.update_self .., rfl, count'.trans count,
          last'.imp_right fun kept => kept.trans last⟩

/-! ## A run of datagrams -/

variable {earlier : List (List UInt8 × Int64)} {arrival : List UInt8 × Int64}

theorem packets_concat (run : packets options tsi receiver (earlier ++ [arrival]) = some next) :
    ∃ before deliveries, packets options tsi receiver earlier = some before ∧
      before.packet options tsi arrival.1 arrival.2 = some (deliveries, next) := by
  rw [packets, List.foldlM_append] at run
  obtain ⟨before, reached, last⟩ := Option.bind_eq_some_iff.mp run
  simp only [List.foldlM_cons, List.foldlM_nil] at last
  obtain ⟨after, done, same⟩ := Option.bind_eq_some_iff.mp last
  obtain ⟨⟨deliveries, after'⟩, passed, rfl⟩ := Option.map_eq_some_iff.mp done
  obtain rfl := Option.some_inj.mp same
  exact ⟨before, deliveries, reached, passed⟩

/-- The first datagram makes the peer known, and counts nothing. -/
theorem packets_first (run : packets options tsi init [arrival] = some next) :
    next.totalMissedPackets = 0 ∧ ∃ peer, next.peers tsi = some peer ∧ peer.missedCnt = 0 ∧
      peer.lastIndex = 0 := by
  have run' : packets options tsi init ([] ++ [arrival]) = some next := run
  obtain ⟨before, deliveries, start, done⟩ := packets_concat run'
  obtain rfl := Option.some_inj.mp start
  obtain ⟨peer, found, total, count, last⟩ := packet_counts done
  exact ⟨total, peer, found, count, last.elim id id⟩

/-- A datagram of a known peer: what is counted goes to both counters. -/
theorem packet_known {peer : PeerInfo} (known : receiver.peers tsi = some peer)
    (done : receiver.packet options tsi bytes timestamp = some (deliveries, next)) :
    next.totalMissedPackets = receiver.totalMissedPackets +
        (peer.follow (indexOf bytes)).2.toInt32.toInt64.toUInt64 ∧
      ∃ peer', next.peers tsi = some peer' ∧
        peer'.missedCnt = peer.missedCnt + (peer.follow (indexOf bytes)).2 ∧
        (peer'.lastIndex = 0 ∨ peer'.lastIndex = indexOf bytes) := by
  obtain ⟨peer', found, total, count, last⟩ := packet_counts done
  rw [identify, known] at total count last
  refine ⟨total, peer', found, count.trans PeerInfo.missedCnt_follow, ?_⟩
  exact last.imp_right fun same => same.trans PeerInfo.lastIndex_follow

/-- After a datagram the peer is known, and its last index is that of the datagram or 0. -/
theorem known_of_packets
    (run : packets options tsi init (earlier ++ [arrival]) = some receiver) :
    ∃ peer, receiver.peers tsi = some peer ∧
      (peer.lastIndex = 0 ∨ peer.lastIndex = indexOf arrival.1) := by
  obtain ⟨before, deliveries, -, done⟩ := packets_concat run
  obtain ⟨peer, found, -, -, last⟩ := packet_counts done
  refine ⟨peer, found, ?_⟩
  rw [identify] at last
  cases known : before.peers tsi with
  | none =>
      rw [known] at last
      exact Or.inl (last.elim id id)
  | some old =>
      rw [known] at last
      exact last.imp_right fun same => same.trans PeerInfo.lastIndex_follow

/-- While no index is skipped nothing is counted. -/
theorem none_missed {datagrams : List (List UInt8 × Int64)} (any : datagrams ≠ [])
    (consecutive : Consecutive (indices datagrams))
    (run : packets options tsi init datagrams = some receiver) :
    receiver.totalMissedPackets = 0 ∧
      ∃ peer, receiver.peers tsi = some peer ∧ peer.missedCnt = 0 := by
  induction datagrams using List.reverseRecOn generalizing receiver with
  | nil => exact absurd rfl any
  | append_singleton earlier arrival ih =>
      rcases List.eq_nil_or_concat earlier with rfl | ⟨front, previous, rfl⟩
      · obtain ⟨total, peer, found, count, -⟩ := packets_first run
        exact ⟨total, peer, found, count⟩
      · rw [List.concat_eq_append] at ih run consecutive
        simp only [indices, List.map_append, List.map_cons, List.map_nil, List.append_assoc,
          List.cons_append, List.nil_append] at ih consecutive
        obtain ⟨consecutive', next_⟩ := consecutive_concat.mp consecutive
        obtain ⟨before, deliveries, reached, done⟩ := packets_concat run
        obtain ⟨total, peer, known, count⟩ := ih (by simp) consecutive' reached
        obtain ⟨peer', known', last⟩ := known_of_packets reached
        obtain rfl := Option.some_inj.mp (known.symm.trans known')
        obtain ⟨total', peer'', found, count', -⟩ := packet_known known done
        rw [next_, PeerInfo.follow_next last] at total' count'
        refine ⟨?_, peer'', found, ?_⟩
        · rw [total', total]
          rfl
        · rw [count', count]
          rfl

/-- If the counters are right after each datagram, then no index was skipped. -/
theorem consecutive_of_counted {datagrams : List (List UInt8 × Int64)}
    (run : packets options tsi init datagrams = some receiver)
    (counted : Counted options tsi datagrams) : Consecutive (indices datagrams) := by
  induction datagrams using List.reverseRecOn generalizing receiver with
  | nil => exact List.isChain_nil
  | append_singleton earlier arrival ih =>
      obtain ⟨before, deliveries, reached, done⟩ := packets_concat run
      have counted_before : Counted options tsi earlier := by
        intro front later split some_
        exact counted front (later ++ [arrival]) (by rw [split, List.append_assoc]) some_
      have consecutive := ih reached counted_before
      rcases List.eq_nil_or_concat earlier with rfl | ⟨front, previous, rfl⟩
      · exact List.isChain_singleton _
      · rw [List.concat_eq_append] at *
        obtain ⟨total, peer, known, count⟩ := none_missed (by simp) consecutive reached
        obtain ⟨peer', known', last⟩ := known_of_packets reached
        obtain rfl := Option.some_inj.mp (known.symm.trans known')
        obtain ⟨total', peer'', found, count', -⟩ := packet_known known done
        obtain ⟨whole, peer₃, found', whole'⟩ :=
          counted (front ++ [previous] ++ [arrival]) [] (List.append_nil _).symm (by simp) _ run
        obtain rfl := Option.some_inj.mp (found.symm.trans found')
        have shape : indices (front ++ [previous] ++ [arrival]) =
            indices front ++ [indexOf previous.1, indexOf arrival.1] := by
          simp [indices]
        have shape' : indices (front ++ [previous]) = indices front ++ [indexOf previous.1] := by
          simp [indices]
        rw [shape, skipped_concat, ← shape', skipped_of_consecutive consecutive, Nat.zero_add]
          at whole whole'
        rw [count', count, UInt32.zero_add] at whole'
        rw [total', total, UInt64.zero_add] at whole
        rw [shape, consecutive_concat, ← shape']
        exact ⟨consecutive, PeerInfo.eq_next_of_counted last (UInt32.toNat_inj.mp whole') whole⟩

/-- The counters are right after each datagram of a peer just if no index is skipped. -/
theorem counted_iff_consecutive {datagrams : List (List UInt8 × Int64)}
    (run : packets options tsi init datagrams = some receiver) :
    Counted options tsi datagrams ↔ Consecutive (indices datagrams) := by
  refine ⟨consecutive_of_counted run, fun consecutive earlier later split any before reached => ?_⟩
  rw [split, indices, List.map_append] at consecutive
  have consecutive' : Consecutive (indices earlier) := consecutive.left_of_append
  obtain ⟨total, peer, found, count⟩ := none_missed any consecutive' reached
  rw [skipped_of_consecutive consecutive', total]
  refine ⟨rfl, peer, found, ?_⟩
  rw [count]
  rfl

/-- Two packets in a row, in which no batch begins. -/
theorem counted_iff_consecutive_of_two :
    Counted ⟨fun _ => 0, false⟩ () [(datagram 0x1FFF 5 [1], 0), (datagram 0x1FFF 6 [2], 1)] ↔
      Consecutive (indices [(datagram 0x1FFF 5 [1], 0), (datagram 0x1FFF 6 [2], 1)]) :=
  counted_iff_consecutive rfl

/-- Of the packets 5, 6 and 8 one is missed, and 7 are counted. -/
theorem gap_counted_from_zero :
    ¬Counted ⟨fun _ => 0, false⟩ ()
      [(datagram 0x1FFF 5 [1], 0), (datagram 0x1FFF 6 [2], 1), (datagram 0x1FFF 8 [3], 2)] := by
  intro counted
  obtain ⟨total, -⟩ := counted _ [] (List.append_nil _).symm (by simp) _ rfl
  exact absurd total (by decide)

end PGMReceiver

end FlashForwarder
