import FlashForwarder.Library.Transition
import FlashForwarder.Pgm.Packetisation
import FlashForwarder.Pgm.Receiver

/-!
# A sender and a receiver

The packets of the sender arrive in order, or are lost; in between other peers may send anything.  A
loss that the receiver sees ends the parser of the peer.  It does not see every loss: a peer whose
`last_index` is 0 counts as one of which nothing is known.
-/

namespace FlashForwarder

open Transition

/-- The two ends, and the packets on the way. -/
structure Session (σ π τ : Type) where
  /-- The sending end. -/
  sender : PGMSender σ π
  /-- The batches that the serialiser gave, in order. -/
  batches : List (List UInt8)
  /-- The packets that were sent, in order. -/
  sent : List (List UInt8)
  /-- The receiving end. -/
  receiver : PGMReceiver τ
  /-- How many of the packets have arrived or are lost. -/
  passed : Nat

/-- What can happen next. -/
inductive SessionAction (π τ : Type) where
  /-- The sender is called; meanwhile there may be messages in its pipe. -/
  | call (event : SenderEvent) (ioPipe : π) (fuel : Nat) (status : SendStatus)
  /-- A packet of the sender arrives, and those before it do not any more. -/
  | arrive (position : Nat) (timestamp : Int64)
  /-- A datagram of another peer arrives. -/
  | foreign (other : τ) (bytes : List UInt8) (timestamp : Int64)

namespace Session

variable {σ π τ : Type} (sending : SenderOptions σ π) (receiving : ReceiverOptions) (tsi : τ)
  (session : Session σ π τ)

/-- Packets arrive in order, and no other peer has the TSI of the sender. -/
def Enabled : SessionAction π τ → Prop
  | .call .. => True
  | .arrive position _ => session.passed ≤ position
  | .foreign other _ _ => other ≠ tsi

/-- The parser that was called, if one was. -/
def parsed : List (Delivery τ) → Option Parser
  | [] => none
  | .parse _ parser :: _ => some parser
  | _ :: deliveries => parsed deliveries

/-- A packet that arrives after a loss finds its peer unjoined or with a `last_index` other than 0,
and the number of packets lost is no multiple of 2^32. -/
def Noticed : SessionAction π τ → Prop
  | .arrive position _ => position = session.passed ∨
      ∀ peer, session.receiver.peers tsi = some peer → peer.joined = true →
        peer.lastIndex ≠ 0 ∧ ¬2 ^ 32 ∣ position - session.passed
  | .call .. | .foreign .. => True

/-- Nothing was sent and nothing has arrived; the sender may begin at any index. -/
structure Initial : Prop where
  writeSize : session.sender.writeSize = 0
  current : session.sender.current = none
  currentOffset : session.sender.currentOffset = 0
  batches : session.batches = []
  sent : session.sent = []
  peers : session.receiver.peers = fun _ => none
  passed : session.passed = 0

section

variable [DecidableEq τ]

/-- What happens then, and the parser of the sender's stream that is called. -/
def exec : SessionAction π τ → Option (Option Parser × Session σ π τ)
  | .call event ioPipe fuel status => do
      let sender := PGMSender.raised { session.sender with ioPipe := ioPipe } event
      let (seen, sender) ← sender.outEvent sending fuel status
      return (none,
        { session with
          sender := sender
          batches := session.batches ++ seen.batches
          sent := session.sent ++ seen.packet.toList })
  | .arrive position timestamp => do
      let bytes ← session.sent[position]?
      let (deliveries, receiver) ← session.receiver.packet receiving tsi bytes timestamp
      return (parsed deliveries, { session with receiver := receiver, passed := position + 1 })
  | .foreign other bytes timestamp => do
      let (_, receiver) ← session.receiver.packet receiving other bytes timestamp
      return (none, { session with receiver := receiver })

/-- Something happens. -/
def Step (session : Session σ π τ) (label : Option Parser) (next : Session σ π τ) : Prop :=
  ∃ action, session.Enabled tsi action ∧
    session.exec sending receiving tsi action = some (label, next)

/-- Something happens that leaves no loss unnoticed. -/
def NoticedStep (session : Session σ π τ) (label : Option Parser) (next : Session σ π τ) : Prop :=
  ∃ action, session.Enabled tsi action ∧ session.Noticed tsi action ∧
    session.exec sending receiving tsi action = some (label, next)

end

/-! ## What a parser is given -/

/-- A parser was given the end of one packet, from its offset on, and the payloads of the packets
that follow it, none left out, up to the last one that passed. -/
def FedUpTo (sent : List (List UInt8)) (passed : Nat) (parser : Parser) : Prop :=
  ∃ before first middle after, sent = before ++ first :: (middle ++ after) ∧
    before.length + 1 + middle.length = passed ∧ offsetOf first ≠ kNonExistOffset ∧
      parser.fed = (payloadOf first).drop (offsetOf first).toNat :: middle.map payloadOf

/-- What was given to a parser is a piece of the stream that starts with a batch, and comes from
packets none of which is missing. -/
structure Intact (session : Session σ π τ) (parser : Parser) : Prop where
  contiguous : ∃ front back, session.batches = front ++ back ∧ parser.fed.flatten <+: back.flatten
  unbroken : ∃ before first middle after, session.sent = before ++ first :: (middle ++ after) ∧
    parser.fed = (payloadOf first).drop (offsetOf first).toNat :: middle.map payloadOf

variable {tsi session} {sent : List (List UInt8)} {passed : Nat} {parser : Parser}

theorem FedUpTo.later (fed : FedUpTo sent passed parser) (more : List (List UInt8)) :
    FedUpTo (sent ++ more) passed parser := by
  obtain ⟨before, first, middle, after, rfl, length, marked, given⟩ := fed
  exact ⟨before, first, middle, after ++ more, by simp, length, marked, given⟩

theorem FedUpTo.next (fed : FedUpTo sent passed parser) {bytes : List UInt8}
    (here : sent[passed]? = some bytes) :
    FedUpTo sent (passed + 1) { parser with fed := parser.fed ++ [payloadOf bytes] } := by
  obtain ⟨before, first, middle, after, rfl, rfl, marked, given⟩ := fed
  obtain ⟨after', rfl⟩ : ∃ after', after = bytes :: after' := by
    cases after with
    | nil =>
        have := (List.getElem?_eq_some_iff.mp here).1
        simp at this
        omega
    | cons head after' =>
        rw [show before ++ first :: (middle ++ head :: after') =
            (before ++ first :: middle) ++ head :: after' by simp,
          show before.length + 1 + middle.length = (before ++ first :: middle).length by
            simp; omega, List.getElem?_append_right (Nat.le_refl _)] at here
        simp at here
        exact ⟨after', by rw [here]⟩
  refine ⟨before, first, middle ++ [bytes], after', by simp, ?_, marked, by simp [given]⟩
  rw [List.length_append, List.length_singleton]
  omega

/-- The stream is joined with a packet in which a batch begins. -/
theorem FedUpTo.join {position : Nat} {bytes : List UInt8} (here : sent[position]? = some bytes)
    (marked : offsetOf bytes ≠ kNonExistOffset) (compressLevel : UInt16) :
    FedUpTo sent (position + 1)
      ⟨compressLevel, [(payloadOf bytes).drop (offsetOf bytes).toNat]⟩ := by
  obtain ⟨bound, rfl⟩ := List.getElem?_eq_some_iff.mp here
  refine ⟨sent.take position, sent[position], [], sent.drop (position + 1), ?_, ?_, marked, rfl⟩
  · rw [List.nil_append, ← List.drop_eq_getElem_cons bound, List.take_append_drop]
  · rw [List.length_take]
    simp
    omega

/-- What the receiver knows of the peer fits the packets that passed. -/
def Follows (sent : List (List UInt8)) (first : UInt32) (passed : Nat) (peer : PeerInfo) : Prop :=
  (peer.lastIndex = 0 ∨ 0 < passed ∧ peer.lastIndex = first + UInt32.ofNat (passed - 1)) ∧
    (peer.joined = true → ∃ parser, peer.parser = some parser ∧ FedUpTo sent passed parser)

/-- A peer stays joined only when no packet was lost. -/
theorem Follows.follow {first : UInt32} {position : Nat} {peer : PeerInfo}
    (follows : Follows sent first passed peer) (order : passed ≤ position)
    (noticed : position = passed ∨
      (peer.joined = true → peer.lastIndex ≠ 0 ∧ ¬2 ^ 32 ∣ position - passed)) :
    (peer.follow (first + UInt32.ofNat position)).1.lastIndex = first + UInt32.ofNat position ∧
      ((peer.follow (first + UInt32.ofNat position)).1.joined = true → ∃ parser,
        (peer.follow (first + UInt32.ofNat position)).1.parser = some parser ∧
          FedUpTo sent position parser) := by
  obtain ⟨lastIndex, joined⟩ := follows
  rw [PeerInfo.follow]
  split
  · exact ⟨rfl, nofun⟩
  · rename_i unseen
    refine ⟨rfl, fun isJoined => ?_⟩
    suffices position = passed by
      subst this
      exact joined isJoined
    by_contra gap
    obtain ⟨known, apart⟩ := (noticed.resolve_left gap) isJoined
    obtain ⟨positive, last⟩ := lastIndex.resolve_left known
    have next : peer.lastIndex + 1 = first + UInt32.ofNat position := by
      by_contra differs
      exact unseen ⟨fun zero => known zero.symm, differs⟩
    rw [last] at next
    have same := congrArg UInt32.toNat next
    simp only [UInt32.toNat_add, UInt32.toNat_ofNat', UInt32.toNat_one] at same
    omega

/-- A peer that is or gets joined has a parser for the bytes that are for it. -/
theorem join_cases (receiving : ReceiverOptions) (peer : PeerInfo) {position : Nat}
    {bytes : List UInt8}
    (here : sent[position]? = some bytes)
    (fits : offsetOf bytes ≠ kNonExistOffset → (offsetOf bytes).toNat ≤ (payloadOf bytes).length)
    (joined : peer.joined = true → ∃ parser, peer.parser = some parser ∧
      FedUpTo sent position parser) :
    ∃ peer' given, PGMReceiver.join receiving peer bytes = some (peer', given) ∧
      peer'.lastIndex = peer.lastIndex ∧
      (given = none ∧ peer'.joined = false ∨ ∃ bytes' parser, given = some bytes' ∧
        peer'.parser = some parser ∧
          FedUpTo sent (position + 1) { parser with fed := parser.fed ++ [bytes'] }) := by
  rw [PGMReceiver.join]
  split
  · rename_i isJoined
    obtain ⟨parser, instance_, fed⟩ := joined isJoined
    exact ⟨peer, some (payloadOf bytes), rfl, rfl,
      Or.inr ⟨_, parser, rfl, instance_, fed.next here⟩⟩
  · rename_i notJoined
    split
    · exact ⟨peer, none, rfl, rfl, Or.inl ⟨rfl, by simpa using notJoined⟩⟩
    · rename_i marked
      rw [if_pos (fits marked)]
      exact ⟨_, _, rfl, rfl, Or.inr ⟨_, _, rfl, rfl, FedUpTo.join here marked _⟩⟩

/-- The parser is given the bytes, and the peer keeps it unless it returns an error. -/
theorem feed_cases (receiving : ReceiverOptions) {peer : PeerInfo} (has : peer.parser = some parser)
    (bytes : List UInt8) :
    ∃ peer', PGMReceiver.feed receiving peer bytes =
        some ({ parser with fed := parser.fed ++ [bytes] }, peer') ∧
      (peer'.lastIndex = 0 ∨ peer'.lastIndex = peer.lastIndex) ∧
      (peer'.joined = true → peer'.parser = some { parser with fed := parser.fed ++ [bytes] }) := by
  rw [PGMReceiver.feed, has]
  refine ⟨_, rfl, ?_⟩
  split
  · exact ⟨Or.inl rfl, nofun⟩
  · exact ⟨Or.inr rfl, fun _ => rfl⟩

/-- The packets carry the stream, and the receiver follows them. -/
structure Holds (tsi : τ) (first : UInt32) (packets : List Packet) (session : Session σ π τ) :
    Prop where
  packetised : PGMSender.Packetised first session.batches session.sent packets session.sender
  follows : ∀ peer, session.receiver.peers tsi = some peer →
    Follows session.sent first session.passed peer

variable {first : UInt32} {packets : List Packet}

private theorem eq_drop_append {before payload rest front back : List UInt8} {offset : Nat}
    (same : before ++ (payload ++ rest) = front ++ back)
    (place : before.length + offset = front.length) (inside : offset ≤ payload.length) :
    back = payload.drop offset ++ rest := by
  have tail := congrArg (List.drop (before.length + offset)) same
  rw [← List.drop_drop, List.drop_left, List.drop_append_of_le_length inside, place,
    List.drop_left] at tail
  exact tail.symm

/-- Unbroken packets from a mark on are a piece of the stream that starts with a batch. -/
theorem Holds.intact (holds : Holds tsi first packets session)
    (fed : FedUpTo session.sent passed parser) : session.Intact parser := by
  obtain ⟨before, start, middle, after, split, -, marked, given⟩ := fed
  refine ⟨?_, before, start, middle, after, split, given⟩
  obtain ⟨encoded, whole, marks, -, -⟩ := holds.packetised
  rw [split] at encoded
  obtain ⟨packet, found, start_eq⟩ : ∃ packet, packets[before.length]? = some packet ∧
      start = datagram packet.word (first + UInt32.ofNat before.length) packet.payload :=
    getElem?_datagrams (by rw [← encoded]; simp)
  have payloads_eq := map_payloadOf_datagrams first packets
  rw [← encoded] at payloads_eq
  obtain ⟨bound, packet_eq⟩ := List.getElem?_eq_some_iff.mp found
  have cut : packets = packets.take before.length ++ packet ::
      packets.drop (before.length + 1) := by
    rw [← packet_eq, ← List.drop_eq_getElem_cons bound, List.take_append_drop]
  have earlier : payloads (packets.take before.length) = (before.map payloadOf).flatten := by
    rw [payloads, List.map_take, ← payloads_eq]
    simp
  have offset : offsetOf start = packet.word &&& kNonExistOffset := by rw [start_eq]; simp
  have payload : payloadOf start = packet.payload := by rw [start_eq]; simp
  obtain ⟨front, back, batches_eq, place, inside⟩ := marks _ _ _ cut (offset ▸ marked)
  refine ⟨front, back, batches_eq, ?_⟩
  rw [earlier, ← offset] at place
  rw [← offset, ← payload] at inside
  have bytes : (before.map payloadOf).flatten ++ (payloadOf start ++
      ((middle.map payloadOf).flatten ++
        (((after ++ session.sender.pending).map payloadOf).flatten ++
        session.sender.rest))) = front.flatten ++ back.flatten := by
    rw [← List.flatten_append, ← batches_eq, ← whole, payloads, ← payloads_eq]
    simp
  rw [eq_drop_append bytes place inside, given, List.flatten_cons]
  exact ⟨_, List.append_assoc ..⟩

variable {start next : Session σ π τ}

/-- What is sent and serialised later does not make a parser's piece another one. -/
theorem Intact.later (intact : session.Intact parser) {batches more : List (List UInt8)}
    (batches_eq : next.batches = session.batches ++ batches)
    (sent_eq : next.sent = session.sent ++ more) :
    next.Intact parser := by
  obtain ⟨⟨front, back, split, piece⟩, before, first, middle, after, split', given⟩ := intact
  constructor
  · refine ⟨front, back ++ batches, by rw [batches_eq, split, List.append_assoc], ?_⟩
    rw [List.flatten_append]
    exact piece.trans (List.prefix_append _ _)
  · exact ⟨before, first, middle, after ++ more, by rw [sent_eq, split']; simp, given⟩

/-! ## What every run keeps -/

section

variable [DecidableEq τ] {sending} {receiving} {label : Option Parser} {trace : List Parser}

/-- What the receiver does with the next packet that arrives. -/
theorem packet_follows (receiving : ReceiverOptions) {first : UInt32} {position : Nat}
    {bytes : List UInt8} (timestamp : Int64) {receiver : PGMReceiver τ}
    (follows : ∀ peer, receiver.peers tsi = some peer → Follows sent first passed peer)
    (order : passed ≤ position)
    (noticed : position = passed ∨ ∀ peer, receiver.peers tsi = some peer → peer.joined = true →
      peer.lastIndex ≠ 0 ∧ ¬2 ^ 32 ∣ position - passed)
    (here : sent[position]? = some bytes) (long : headerSize ≤ bytes.length)
    (index : indexOf bytes = first + UInt32.ofNat position)
    (fits : offsetOf bytes ≠ kNonExistOffset → (offsetOf bytes).toNat ≤ (payloadOf bytes).length) :
    ∃ deliveries receiver',
      receiver.packet receiving tsi bytes timestamp = some (deliveries, receiver') ∧
      (∀ peer, receiver'.peers tsi = some peer → Follows sent first (position + 1) peer) ∧
      ∀ parser, parsed deliveries = some parser → FedUpTo sent (position + 1) parser := by
  obtain ⟨counted, counted_eq⟩ : ∃ counted, counted =
      { receiver with
        totalReceivedBytes := receiver.totalReceivedBytes + UInt64.ofNat bytes.length } := ⟨_, rfl⟩
  obtain ⟨peer, receiver₁, identified⟩ : ∃ peer receiver₁,
      counted.identify tsi (indexOf bytes) = (peer, receiver₁) := ⟨_, _, rfl⟩
  have known : (peer.lastIndex = 0 ∨ peer.lastIndex = first + UInt32.ofNat position) ∧
      (peer.joined = true →
        ∃ parser, peer.parser = some parser ∧ FedUpTo sent position parser) := by
    rw [PGMReceiver.identify, index] at identified
    cases present : counted.peers tsi with
    | none =>
        rw [present] at identified
        obtain ⟨rfl, -⟩ := Prod.mk.inj identified
        exact ⟨Or.inl rfl, nofun⟩
    | some old =>
        rw [present] at identified
        obtain ⟨rfl, -⟩ := Prod.mk.inj identified
        have old_eq : receiver.peers tsi = some old := by rw [← present, counted_eq]
        obtain ⟨lastIndex, joined⟩ := (follows old old_eq).follow order
          (noticed.imp_right fun notice => notice old old_eq)
        exact ⟨Or.inr lastIndex, joined⟩
  obtain ⟨peer', given, join_eq, lastIndex, ⟨rfl, apart⟩ | ⟨bytes', parser, rfl, has, fed⟩⟩ :=
    join_cases receiving { peer with receivedCnt := peer.receivedCnt + 1 } here fits known.2
  · refine ⟨[], receiver₁.setPeer tsi peer', ?_, ?_, nofun⟩
    · simp [PGMReceiver.packet, Nat.not_lt.mpr long, ← counted_eq, identified, join_eq]
    · intro after found
      obtain rfl : peer' = after := by simpa [PGMReceiver.setPeer] using found
      refine ⟨?_, fun isJoined => absurd (apart.symm.trans isJoined) nofun⟩
      rw [lastIndex]
      exact known.1.imp_right fun last => ⟨Nat.succ_pos position, last⟩
  · obtain ⟨peer'', fed_eq, zero_or, joined⟩ := feed_cases receiving has bytes'
    refine ⟨[.beginPush timestamp, .parse tsi { parser with fed := parser.fed ++ [bytes'] },
        .endPush],
      { receiver₁.setPeer tsi peer'' with lastMsgTimestamp := timestamp }, ?_, ?_, ?_⟩
    · simp [PGMReceiver.packet, Nat.not_lt.mpr long, ← counted_eq, identified, join_eq, fed_eq]
    · intro after found
      obtain rfl : peer'' = after := by simpa [PGMReceiver.setPeer] using found
      refine ⟨?_, fun isJoined => ⟨_, joined isJoined, fed⟩⟩
      rcases zero_or with zero | same
      · exact Or.inl zero
      · rw [same, lastIndex]
        exact known.1.imp_right fun last => ⟨Nat.succ_pos position, last⟩
    · intro parser' called
      obtain rfl := Option.some_inj.mp called
      exact fed

/-- Datagrams of other peers leave a peer alone, or end it. -/
theorem packet_foreign {other : τ} (different : other ≠ tsi)
    {bytes : List UInt8} {timestamp : Int64} {receiver receiver' : PGMReceiver τ}
    {deliveries : List (Delivery τ)}
    (received : receiver.packet receiving other bytes timestamp = some (deliveries, receiver'))
    {peer : PeerInfo} (found : receiver'.peers tsi = some peer) :
    receiver.peers tsi = some peer := by
  rw [PGMReceiver.packet] at received
  split at received
  · exact absurd received nofun
  · obtain ⟨peer', receiver₁, identified⟩ : ∃ peer' receiver₁, PGMReceiver.identify
        { receiver with
          totalReceivedBytes := receiver.totalReceivedBytes + UInt64.ofNat bytes.length }
        other (indexOf bytes) = (peer', receiver₁) := ⟨_, _, rfl⟩
    have known : receiver₁.peers tsi = some peer → receiver.peers tsi = some peer := by
      intro same
      rw [PGMReceiver.identify] at identified
      split at identified <;> obtain ⟨-, rfl⟩ := Prod.mk.inj identified
      · exact absurd same nofun
      · exact same
    have kept : ∀ peer', (receiver₁.setPeer other peer').peers tsi = receiver₁.peers tsi :=
      fun peer' => Function.update_of_ne different.symm _ _
    dsimp only at received
    rw [identified] at received
    obtain ⟨⟨peer', given⟩, -, rest⟩ := Option.bind_eq_some_iff.mp received
    cases given with
    | none =>
        obtain ⟨-, rfl⟩ := Prod.mk.inj (Option.some_inj.mp rest)
        exact known ((kept peer').symm.trans found)
    | some given =>
        obtain ⟨⟨parser, peer''⟩, -, rest⟩ := Option.bind_eq_some_iff.mp rest
        obtain ⟨-, rfl⟩ := Prod.mk.inj (Option.some_inj.mp rest)
        exact known ((kept peer'').symm.trans found)

/-- A step that leaves no loss unnoticed keeps the parsers' pieces whole. -/
theorem Holds.step (holds : Holds tsi first packets session)
    (step : NoticedStep sending receiving tsi session label next) :
    (∃ packets', Holds tsi first packets' next) ∧
      (∀ parser, session.Intact parser → next.Intact parser) ∧
      ∀ parser, label = some parser → next.Intact parser := by
  obtain ⟨packetised, follows⟩ := holds
  obtain ⟨action, enabled, noticed, done⟩ := step
  cases action with
  | call event ioPipe fuel status =>
      obtain ⟨⟨seen, sender⟩, called, rest⟩ := Option.bind_eq_some_iff.mp done
      obtain ⟨rfl, rfl⟩ := Prod.mk.inj (Option.some_inj.mp rest)
      have raised : PGMSender.Packetised first session.batches session.sent packets
          (PGMSender.raised { session.sender with ioPipe := ioPipe } event) := by
        cases event <;> exact { packetised with }
      obtain ⟨packets', -, packetised'⟩ := raised.outEvent called
      refine ⟨⟨packets', packetised', fun peer found => ?_⟩, fun parser intact =>
        intact.later rfl rfl, nofun⟩
      obtain ⟨lastIndex, joined⟩ := follows peer found
      refine ⟨lastIndex, fun isJoined => ?_⟩
      obtain ⟨parser, has, fed⟩ := joined isJoined
      exact ⟨parser, has, fed.later _⟩
  | arrive position timestamp =>
      obtain ⟨bytes, here, rest⟩ := Option.bind_eq_some_iff.mp done
      have sent_here : (datagrams first packets)[position]? = some bytes := by
        rw [← packetised.encoded]
        rw [List.getElem?_append_left (List.getElem?_eq_some_iff.mp here).1]
        exact here
      obtain ⟨packet, found, bytes_eq⟩ := getElem?_datagrams sent_here
      have fits : offsetOf bytes ≠ kNonExistOffset →
          (offsetOf bytes).toNat ≤ (payloadOf bytes).length := by
        intro marked
        rw [bytes_eq, offsetOf_datagram] at marked
        obtain ⟨bound, packet_eq⟩ := List.getElem?_eq_some_iff.mp found
        have cut : packets = packets.take position ++ packet :: packets.drop (position + 1) := by
          rw [← packet_eq, ← List.drop_eq_getElem_cons bound, List.take_append_drop]
        obtain ⟨-, -, -, -, inside⟩ := packetised.marks _ _ _ cut marked
        rwa [bytes_eq, offsetOf_datagram, payloadOf_datagram]
      obtain ⟨deliveries, receiver, received, follows', fed⟩ := packet_follows receiving timestamp
        follows enabled noticed here
        (by rw [bytes_eq]; exact headerSize_le_datagram _ _ _) (by rw [bytes_eq]; simp) fits
      rw [received] at rest
      obtain ⟨rfl, rfl⟩ := Prod.mk.inj (Option.some_inj.mp rest)
      have holds' : Holds tsi first packets
          { session with receiver := receiver, passed := position + 1 } :=
        ⟨{ packetised with }, follows'⟩
      refine ⟨⟨packets, holds'⟩, fun parser intact => ?_, fun parser called =>
        holds'.intact (fed parser called)⟩
      exact intact.later (List.append_nil _).symm (List.append_nil _).symm
  | foreign other bytes timestamp =>
      obtain ⟨⟨deliveries, receiver⟩, received, rest⟩ := Option.bind_eq_some_iff.mp done
      obtain ⟨rfl, rfl⟩ := Prod.mk.inj (Option.some_inj.mp rest)
      refine ⟨⟨packets, { packetised with }, fun peer found => ?_⟩, fun parser intact => ?_, nofun⟩
      · exact follows peer (packet_foreign enabled received found)
      · exact intact.later (List.append_nil _).symm (List.append_nil _).symm

/-- In every run that leaves no loss unnoticed, whatever a parser was given is one piece of the
stream that starts with a batch, and comes from packets none of which is missing. -/
theorem intact_of_noticed (initial : start.Initial)
    (run : Run (NoticedStep sending receiving tsi) start trace session) :
    ∀ parser ∈ trace, session.Intact parser := by
  have kept : (∃ packets, Holds tsi start.sender.nextIndex packets session) ∧
      ∀ parser ∈ trace, session.Intact parser := by
    induction run with
    | nil =>
        refine ⟨⟨[], ⟨?_, ?_, fun front packet back split => by simp at split,
          (UInt32.add_zero _).symm, fun _ => initial.currentOffset⟩, ?_⟩, by simp⟩
        · simp [initial.sent, PGMSender.pending, initial.writeSize, datagrams]
        · simp [payloads, PGMSender.rest, initial.current, initial.batches]
        · intro peer found
          rw [initial.peers] at found
          cases found
    | silent _ step ih =>
        obtain ⟨⟨packets, holds⟩, earlier⟩ := ih
        obtain ⟨holds', later, -⟩ := holds.step step
        exact ⟨holds', fun parser among => later parser (earlier parser among)⟩
    | visible _ step ih =>
        obtain ⟨⟨packets, holds⟩, earlier⟩ := ih
        obtain ⟨holds', later, here⟩ := holds.step step
        refine ⟨holds', fun parser among => ?_⟩
        rcases List.mem_append.mp among with before | last
        · exact later parser (earlier parser before)
        · exact here parser (congrArg some (List.mem_singleton.mp last).symm)
  exact kept.2

end

/-! ## A loss after the first packet -/

/-- A serialiser that gives what it was given, and a pipe with a list of messages. -/
def plainSender : SenderOptions (List UInt8) (List (List UInt8)) where
  outBufferSize := 1456
  headerSize_le := by decide
  outBufferSize_le := by decide
  compressLevel := 0
  serialize := fun batch msg => batch ++ msg
  onIncrement := none
  flush := fun batch => (batch, [])
  read
    | [] => (none, [])
    | msg :: rest => (some msg, rest)

/-- A parser that takes everything. -/
def plainReceiver : ReceiverOptions := ⟨fun _ => 0, false⟩

/-- The session of these before anything is sent. -/
def plainSession : Session (List UInt8) (List (List UInt8)) Nat where
  sender := ⟨[], [], 0, [], 0, none, 0, false, false, 0⟩
  batches := []
  sent := []
  receiver := PGMReceiver.init
  passed := 0

theorem plainSession_initial : plainSession.Initial := ⟨rfl, rfl, rfl, rfl, rfl, rfl, rfl⟩

/-- `plainSession`, but the sender begins at the index 5. -/
def laterSession : Session (List UInt8) (List (List UInt8)) Nat :=
  { plainSession with sender.nextIndex := 5 }

theorem laterSession_initial : laterSession.Initial := ⟨rfl, rfl, rfl, rfl, rfl, rfl, rfl⟩

/-- A loss is noticed if the peer is known by an index other than 0, and the loss is small. -/
theorem noticed_of_peer (peer : PeerInfo) (position : Nat) (timestamp : Int64)
    (known : session.receiver.peers tsi = some peer) (follows : peer.lastIndex ≠ 0)
    (few : ¬2 ^ 32 ∣ position - session.passed) :
    session.Noticed tsi (.arrive position timestamp) := by
  refine Or.inr fun other found _ => ?_
  obtain rfl := Option.some_inj.mp (known.symm.trans found)
  exact ⟨follows, few⟩

/-- Of four packets the third is lost, which is noticed: the fourth goes to a new parser. -/
theorem intact_of_four_packets :
    ∃ session parser, Run (NoticedStep plainSender plainReceiver 0) laterSession
        [⟨0, [[1, 2]]⟩, ⟨0, [[1, 2], [3, 4]]⟩, ⟨0, [[7, 8]]⟩] session ∧
      session.passed = 4 ∧ parser = ⟨0, [[7, 8]]⟩ ∧ session.Intact parser := by
  have sent : Run (NoticedStep plainSender plainReceiver 0) laterSession [] _ :=
    (((Run.nil.silent ⟨.call .outEvent [[1, 2]] 3 .normal, trivial, trivial, rfl⟩).silent
      ⟨.call .outEvent [[3, 4]] 3 .normal, trivial, trivial, rfl⟩).silent
      ⟨.call .outEvent [[5, 6]] 3 .normal, trivial, trivial, rfl⟩).silent
      ⟨.call .outEvent [[7, 8]] 3 .normal, trivial, trivial, rfl⟩
  have first : Run (NoticedStep plainSender plainReceiver 0) _
      (_ ++ [(⟨0, [[1, 2]]⟩ : Parser)]) _ :=
    sent.visible ⟨.arrive 0 0, Nat.le_refl 0, Or.inl rfl, rfl⟩
  have second : Run (NoticedStep plainSender plainReceiver 0) _
      (_ ++ [(⟨0, [[1, 2], [3, 4]]⟩ : Parser)]) _ :=
    first.visible ⟨.arrive 1 0, Nat.le_refl 1, Or.inl rfl, rfl⟩
  have fourth : Run (NoticedStep plainSender plainReceiver 0) _
      (_ ++ [(⟨0, [[7, 8]]⟩ : Parser)]) _ :=
    second.visible ⟨.arrive 3 0, Nat.le_succ 2, noticed_of_peer
      ⟨true, 5, 6, 2, 0, some ⟨0, [[1, 2], [3, 4]]⟩, false⟩ 3 0 rfl (by decide) (by decide), rfl⟩
  exact ⟨_, _, fourth, rfl, rfl, intact_of_noticed laterSession_initial fourth _
    (List.mem_append_right _ (List.mem_singleton.mpr rfl))⟩

/-- When the second of three packets is lost, the third one goes to the parser of the first. -/
theorem loss_after_first_packet :
    ¬∀ (start session : Session (List UInt8) (List (List UInt8)) Nat) (trace : List Parser),
      start.Initial → Run (Step plainSender plainReceiver 0) start trace session →
        ∀ parser ∈ trace, session.Intact parser := by
  intro claimed
  have sent : Run (Step plainSender plainReceiver 0) plainSession [] _ :=
    ((Run.nil.silent ⟨.call .outEvent [[1, 2]] 3 .normal, trivial, rfl⟩).silent
      ⟨.call .outEvent [[3, 4]] 3 .normal, trivial, rfl⟩).silent
      ⟨.call .outEvent [[5, 6]] 3 .normal, trivial, rfl⟩
  have first : Run (Step plainSender plainReceiver 0) _ (_ ++ [(⟨0, [[1, 2]]⟩ : Parser)]) _ :=
    sent.visible ⟨.arrive 0 0, Nat.le_refl 0, rfl⟩
  have third : Run (Step plainSender plainReceiver 0) _
      (_ ++ [(⟨0, [[1, 2], [5, 6]]⟩ : Parser)]) _ :=
    first.visible ⟨.arrive 2 0, Nat.le_succ 1, rfl⟩
  obtain ⟨front, back, split, piece⟩ := (claimed _ _ _ plainSession_initial third
    ⟨0, [[1, 2], [5, 6]]⟩ (List.mem_append_right _ (List.mem_singleton.mpr rfl))).contiguous
  have bytes : ([1, 2, 5, 6] : List UInt8) <+: back.flatten := piece
  have batches : ([[1, 2], [3, 4], [5, 6]] : List (List UInt8)) = front ++ back := split
  rcases front with _ | ⟨_, _ | ⟨_, _ | ⟨_, rest⟩⟩⟩ <;> simp at batches
  · exact absurd (batches ▸ bytes) (by decide)
  · exact absurd (batches.2 ▸ bytes) (by decide)
  · exact absurd (batches.2.2 ▸ bytes) (by decide)
  · exact absurd (batches.2.2.2.2 ▸ bytes) (by decide)

end Session

end FlashForwarder
