import FlashForwarder.Pgm.Datagram

/-!
# The receiving end

`PGMReceiver` follows the packets of a peer by their index, joins its stream where a batch begins,
and gives the bytes from there on to a parser.  The parser is outside the source: it is known by the
bytes it has been given, and what `Parse` returns is a parameter.  The receive timer is left out.
-/

namespace FlashForwarder

/-- An instance that the parser factory has created. -/
structure Parser where
  /-- The compress level that `Create` was given. -/
  compressLevel : UInt16
  /-- What `Parse` was given, call by call. -/
  fed : List (List UInt8)
  deriving DecidableEq

/-- What a receiver is built from. -/
structure ReceiverOptions where
  /-- What `Parse` returns to an instance that was given these bytes, the last ones just now. -/
  parse : Parser → Int
  /-- Whether there is an `inc_apply_factory_`. -/
  hasIncApplyFactory : Bool

/-- `peer_info_t` -/
structure PeerInfo where
  joined : Bool := false
  beginIndex : UInt32 := 0
  lastIndex : UInt32 := 0
  receivedCnt : UInt32 := 0
  missedCnt : UInt32 := 0
  parser : Option Parser := none
  /-- Whether there is an `inc_apply`. -/
  incApply : Bool := false

/-- The members of `PGMReceiver` that `InEvent` uses. -/
structure PGMReceiver (τ : Type) where
  /-- `peers_` -/
  peers : τ → Option PeerInfo
  /-- `status_.total_received_bytes` -/
  totalReceivedBytes : UInt64
  /-- `status_.total_missed_packets` -/
  totalMissedPackets : UInt64
  /-- `status_.last_msg_timestamp` -/
  lastMsgTimestamp : Int64

/-- A call on a sink or on a parser. -/
inductive Delivery (τ : Type) where
  /-- `BeginPush(timestamp)` of every sink. -/
  | beginPush (timestamp : Int64)
  /-- `Parse` of the parser of a peer, with all that it has been given by then. -/
  | parse (tsi : τ) (parser : Parser)
  /-- `EndPush` of every sink. -/
  | endPush

/-- What `pgm_socket_.Receive` comes to. -/
inductive Reception (τ : Type) where
  /-- There is no data. -/
  | nothing
  /-- `VSS_DATA_LOST` -/
  | lost
  /-- A datagram of a peer, and the time when it is parsed. -/
  | data (tsi : τ) (bytes : List UInt8) (timestamp : Int64)

namespace PeerInfo

/-- The peer is left, and with it its parser. -/
def disjoin (peer : PeerInfo) : PeerInfo :=
  { peer with joined := false, lastIndex := 0, parser := none, incApply := false }

/-- How many packets were missed before the one with this index. -/
def missed (peer : PeerInfo) (index : UInt32) : UInt32 :=
  if index > peer.lastIndex then index - peer.lastIndex - 1
  else 0xFFFFFFFF - peer.lastIndex + index - 1

/-- A peer that is known has sent the packet with this index; how many packets were missed. -/
def follow (peer : PeerInfo) (index : UInt32) : PeerInfo × UInt32 :=
  if 0 ≠ peer.lastIndex ∧ peer.lastIndex + 1 ≠ index then
    let peer := peer.disjoin
    let missed := peer.missed index
    ({ peer with missedCnt := peer.missedCnt + missed, lastIndex := index }, missed)
  else
    ({ peer with lastIndex := index }, 0)

end PeerInfo

namespace PGMReceiver

variable {τ : Type} [DecidableEq τ] (options : ReceiverOptions) (receiver : PGMReceiver τ)

/-- A receiver that knows no peer. -/
def init : PGMReceiver τ := ⟨fun _ => none, 0, 0, 0⟩

/-- The entry of a peer. -/
def setPeer (tsi : τ) (peer : PeerInfo) : PGMReceiver τ :=
  { receiver with peers := Function.update receiver.peers tsi (some peer) }

/-- The peer is looked up by its TSI, and follows the index of the packet; `missed` is an `int`, and
is extended with its sign. -/
def identify (tsi : τ) (index : UInt32) : PeerInfo × PGMReceiver τ :=
  match receiver.peers tsi with
  | none => ({ beginIndex := index }, { receiver with peers := fun _ => none })
  | some peer =>
      let (peer, missed) := peer.follow index
      let total := receiver.totalMissedPackets + missed.toInt32.toInt64.toUInt64
      (peer, { receiver with totalMissedPackets := total })

/-- The stream is joined if needed; the bytes that are for the parser, if there are any. -/
def join (peer : PeerInfo) (bytes : List UInt8) : Option (PeerInfo × Option (List UInt8)) :=
  if peer.joined then some (peer, some (payloadOf bytes))
  else if offsetOf bytes = kNonExistOffset then some (peer, none)
  else if (offsetOf bytes).toNat ≤ (payloadOf bytes).length then
    let encodeOption := loadUint16 bytes 0 >>> kOffsetBitCount.toUInt16
    let incUpdate := encodeOption &&& 4 ≠ 0
    some
      ({ peer with
          joined := true
          parser := some ⟨encodeOption &&& ~~~4, []⟩
          incApply := peer.incApply || (incUpdate && options.hasIncApplyFactory) },
        some ((payloadOf bytes).drop (offsetOf bytes).toNat))
  else none

/-- The bytes go to the parser of the peer, which is left if it returns an error. -/
def feed (peer : PeerInfo) (bytes : List UInt8) : Option (Parser × PeerInfo) := do
  let parser ← peer.parser
  let parser := { parser with fed := parser.fed ++ [bytes] }
  let peer := { peer with parser := some parser }
  return (parser, if options.parse parser ≠ 0 then peer.disjoin else peer)

/-- What `InEvent` does with a datagram, unless an assertion fails. -/
def packet (tsi : τ) (bytes : List UInt8) (timestamp : Int64) :
    Option (List (Delivery τ) × PGMReceiver τ) :=
  if bytes.length < headerSize then none
  else do
    let receiver :=
      { receiver with
        totalReceivedBytes := receiver.totalReceivedBytes + UInt64.ofNat bytes.length }
    let (peer, receiver) := receiver.identify tsi (indexOf bytes)
    let peer := { peer with receivedCnt := peer.receivedCnt + 1 }
    match ← join options peer bytes with
    | (peer, none) => return ([], receiver.setPeer tsi peer)
    | (peer, some bytes) =>
        let (parser, peer) ← feed options peer bytes
        return ([.beginPush timestamp, .parse tsi parser, .endPush],
          { receiver.setPeer tsi peer with lastMsgTimestamp := timestamp })

/-- `InEvent`, while `Receive` comes to this. -/
def inEvent : List (Reception τ) → PGMReceiver τ → Option (List (Delivery τ) × PGMReceiver τ)
  | .data tsi bytes timestamp :: receptions, receiver => do
      let (first, receiver) ← receiver.packet options tsi bytes timestamp
      let (rest, receiver) ← inEvent receptions receiver
      return (first ++ rest, receiver)
  | _, receiver => some ([], receiver)

end PGMReceiver

end FlashForwarder
