import FlashForwarder.Pgm.Receiver
import FlashForwarder.Pgm.Transmission

/-!
# From the parsers to the sinks

A receiver is the handler of its parsers: in the course of a `Parse` every message comes back
through `HandleMessage`, goes through the peer's `inc_apply` if there is one, and is pushed to every
sink.  A sender is such a sink.  The parsers and `inc_apply` are outside the source: both are known
by what they have been given.
-/

namespace FlashForwarder

open ProgramLoop Transition

/-- What a receiver with sinks is built from. -/
structure ForwarderOptions extends ReceiverOptions where
  /-- The contents that `HandleMessage` is called with in the course of the last `Parse`. -/
  messages : Parser → List Content
  /-- What `Apply` makes of a content, once the instance has been given the others before; it is
  empty where `raw_size` is not positive. -/
  apply : List Content → Content → Content

/-- The members of `PGMReceiver` that `InEvent` and `HandleMessage` use. -/
structure Forwarder (τ : Type) where
  receiver : PGMReceiver τ
  /-- What the last `inc_apply` of each peer has been given. -/
  given : τ → List Content
  /-- The peer whose `inc_apply` is `current_inc_apply_`. -/
  currentIncApply : Option τ
  /-- `status_.total_received_msgs` -/
  totalReceivedMsgs : UInt64
  /-- `status_.total_decoded_bytes` -/
  totalDecodedBytes : UInt64
  /-- The calls that were made of each of `sinks_`. -/
  calls : List PushCall

/-- `inc_update`, as a datagram tells it. -/
def incUpdate (bytes : List UInt8) : Bool :=
  decide ((loadUint16 bytes 0 >>> kOffsetBitCount.toUInt16) &&& 4 ≠ 0)

namespace Forwarder

variable {τ : Type} [DecidableEq τ] (options : ForwarderOptions) (forwarder : Forwarder τ)

/-- A receiver that knows no peer. -/
def init : Forwarder τ := ⟨.init, fun _ => [], none, 0, 0, []⟩

/-- A call is made of every sink. -/
def call (call : PushCall) : Forwarder τ := { forwarder with calls := forwarder.calls ++ [call] }

/-- `status_.total_decoded_bytes` grows by the size of a content. -/
def decoded (content : Content) : Forwarder τ :=
  { forwarder with
    totalDecodedBytes := forwarder.totalDecodedBytes + UInt64.ofNat content.bytes.length }

/-- `HandleMessage` -/
def handleMessage (content : Content) : Forwarder τ :=
  let handled :=
    match forwarder.currentIncApply with
    | some tsi =>
        let raw := options.apply (forwarder.given tsi) content
        let applied :=
          { forwarder with
            given := Function.update forwarder.given tsi (forwarder.given tsi ++ [content]) }
        if 0 < raw.bytes.length then (applied.call (.pushMessage raw)).decoded raw
        else applied.decoded content
    | none => (forwarder.call (.pushMessage content)).decoded content
  { handled with totalReceivedMsgs := handled.totalReceivedMsgs + 1 }

/-- Whether an `inc_apply` is created for a peer whose stream is joined with this datagram. -/
def createsIncApply (peer : PeerInfo) (bytes : List UInt8) : Bool :=
  !peer.joined && incUpdate bytes && options.hasIncApplyFactory

/-- A `Parse`, between the `BeginPush` and the `EndPush` of the sinks. -/
def parses (timestamp : Int64) (parser : Parser) : Forwarder τ :=
  ((options.messages parser).foldl (handleMessage options)
    (forwarder.call (.beginPush timestamp))).call .endPush

/-- What `InEvent` does with a datagram, unless an assertion fails. -/
def packet (tsi : τ) (bytes : List UInt8) (timestamp : Int64) : Option (Forwarder τ) :=
  if bytes.length < headerSize then none
  else do
    let receiver :=
      { forwarder.receiver with
        totalReceivedBytes :=
          forwarder.receiver.totalReceivedBytes + UInt64.ofNat bytes.length }
    let (peer, receiver) := receiver.identify tsi (indexOf bytes)
    let peer := { peer with receivedCnt := peer.receivedCnt + 1 }
    match ← PGMReceiver.join options.toReceiverOptions peer bytes with
    | (joined, none) => return { forwarder with receiver := receiver.setPeer tsi joined }
    | (joined, some payload) =>
        let (parser, left) ← PGMReceiver.feed options.toReceiverOptions joined payload
        let begun :=
          { forwarder with
            receiver := { receiver.setPeer tsi left with lastMsgTimestamp := timestamp }
            given :=
              if createsIncApply options peer bytes then Function.update forwarder.given tsi []
              else forwarder.given
            currentIncApply := if joined.incApply then some tsi else none }
        return begun.parses options timestamp parser

/-- `InEvent`, while `Receive` comes to this. -/
def inEvent : List (Reception τ) → Forwarder τ → Option (Forwarder τ)
  | .data tsi bytes timestamp :: receptions, forwarder => do
      let forwarder ← forwarder.packet options tsi bytes timestamp
      inEvent receptions forwarder
  | _, forwarder => some forwarder

end Forwarder

/-! ## What is forwarded of a `Parse` -/

namespace ForwarderOptions

variable (options : ForwarderOptions)

/-- The contents with what becomes of them: without an `inc_apply` they are pushed as they are, with
one that was given `given` before they are pushed as what it makes of them, if that is not empty. -/
def outcomes : Option (List Content) → List Content → List (Content × Option Content)
  | _, [] => []
  | none, content :: contents => (content, some content) :: outcomes none contents
  | some given, content :: contents =>
      let raw := options.apply given content
      (content, if 0 < raw.bytes.length then some raw else none) ::
        outcomes (some (given ++ [content])) contents

/-- All that a parser has reported. -/
def reported (parser : Parser) : List Content :=
  (List.range parser.fed.length).flatMap fun count =>
    options.messages { parser with fed := parser.fed.take (count + 1) }

end ForwarderOptions

/-- A `Parse`, as it shows from outside. -/
structure Forwarding (τ : Type) where
  timestamp : Int64
  tsi : τ
  /-- The parser, with all that it has been given by then. -/
  parser : Parser
  /-- Whether the peer has an `inc_apply`. -/
  applying : Bool

namespace Forwarding

variable {τ : Type} (options : ForwarderOptions) (forwarding : Forwarding τ)

/-- What it is for the receiver. -/
def deliveries : List (Delivery τ) :=
  [.beginPush forwarding.timestamp, .parse forwarding.tsi forwarding.parser, .endPush]

/-- What an `inc_apply` that is as old as the parser was given before. -/
def given : Option (List Content) :=
  if forwarding.applying then
    some (options.reported { forwarding.parser with fed := forwarding.parser.fed.dropLast })
  else none

/-- What becomes of the contents that the parser reports. -/
def outcomes : List (Content × Option Content) :=
  options.outcomes (forwarding.given options) (options.messages forwarding.parser)

/-- The contents that are pushed. -/
def pushed : List Content := (forwarding.outcomes options).filterMap Prod.snd

/-- What it is for a sink. -/
def calls : List PushCall :=
  .beginPush forwarding.timestamp :: (forwarding.pushed options).map .pushMessage ++ [.endPush]

/-- The bytes it counts as decoded. -/
def decodedBytes : Nat :=
  ((forwarding.outcomes options).map fun (content, raw) => (raw.getD content).bytes.length).sum

end Forwarding

/-- The stream of a peer was joined with one of its datagrams: the parser that was created then was
given the end of that one, from the offset on, and the payloads of all that came after it, and there
is an `inc_apply` just if that one asks for it and there is a factory. -/
def JoinedBy (options : ReceiverOptions) (datagrams : List (List UInt8)) (parser : Parser)
    (applying : Bool) : Prop :=
  ∃ before first later, datagrams = before ++ first :: later ∧
    parser.compressLevel = (loadUint16 first 0 >>> kOffsetBitCount.toUInt16) &&& ~~~4 ∧
    parser.fed = (payloadOf first).drop (offsetOf first).toNat :: later.map payloadOf ∧
    applying = (incUpdate first && options.hasIncApplyFactory)

/-- The next datagram of a peer whose stream is joined goes to the same parser. -/
theorem JoinedBy.next {options : ReceiverOptions} {datagrams : List (List UInt8)}
    {parser : Parser} {applying : Bool}
    (joined : JoinedBy options datagrams parser applying) (bytes : List UInt8) :
    JoinedBy options (datagrams ++ [bytes])
      { parser with fed := parser.fed ++ [payloadOf bytes] } applying := by
  obtain ⟨before, first, later, rfl, level, fed, same⟩ := joined
  exact ⟨before, first, later ++ [bytes], by simp, level, by simp [fed], same⟩

section

variable {τ : Type} [DecidableEq τ]

/-- A peer has sent one more datagram. -/
def oneMore (sent : τ → List (List UInt8)) (tsi : τ) (bytes : List UInt8) :
    τ → List (List UInt8) :=
  Function.update sent tsi (sent tsi ++ [bytes])

/-- The `Parse`s that the datagrams come to, one by one, if the peers have sent some before: none
while the stream of a peer is not joined, and then one each. -/
inductive Parses (options : ReceiverOptions) : (τ → List (List UInt8)) → PGMReceiver τ →
    List (Reception τ) → List (Forwarding τ) → PGMReceiver τ → Prop
  | ended {sent : τ → List (List UInt8)} {receiver : PGMReceiver τ}
      {receptions : List (Reception τ)}
      (nothing : ∀ tsi bytes timestamp, receptions.head? ≠ some (.data tsi bytes timestamp)) :
      Parses options sent receiver receptions [] receiver
  | skipped {sent : τ → List (List UInt8)} {receiver middle next : PGMReceiver τ} {tsi : τ}
      {bytes : List UInt8} {timestamp : Int64} {receptions : List (Reception τ)}
      {trace : List (Forwarding τ)}
      (packet : receiver.packet options tsi bytes timestamp = some ([], middle))
      (rest : Parses options (oneMore sent tsi bytes) middle receptions trace next) :
      Parses options sent receiver (.data tsi bytes timestamp :: receptions) trace next
  | parsed {sent : τ → List (List UInt8)} {receiver middle next : PGMReceiver τ}
      {forwarding : Forwarding τ} {bytes : List UInt8} {receptions : List (Reception τ)}
      {trace : List (Forwarding τ)}
      (packet : receiver.packet options forwarding.tsi bytes forwarding.timestamp =
        some (forwarding.deliveries, middle))
      (joined : JoinedBy options (sent forwarding.tsi ++ [bytes]) forwarding.parser
        forwarding.applying)
      (rest : Parses options (oneMore sent forwarding.tsi bytes) middle receptions trace next) :
      Parses options sent receiver
        (.data forwarding.tsi bytes forwarding.timestamp :: receptions) (forwarding :: trace) next

variable {options : ReceiverOptions} {sent : τ → List (List UInt8)}
  {receiver next : PGMReceiver τ} {receptions : List (Reception τ)} {trace : List (Forwarding τ)}

theorem Parses.inEvent (parses : Parses options sent receiver receptions trace next) :
    receiver.inEvent options receptions =
      some (trace.flatMap Forwarding.deliveries, next) := by
  induction parses with
  | @ended _ _ receptions nothing =>
      cases receptions with
      | nil => rfl
      | cons reception _ =>
          cases reception with
          | data tsi bytes timestamp => exact absurd rfl (nothing tsi bytes timestamp)
          | nothing => rfl
          | lost => rfl
  | skipped packet _ ih => simp [PGMReceiver.inEvent, packet, ih]
  | parsed packet _ _ ih => simp [PGMReceiver.inEvent, packet, ih]

/-- Without a factory no peer has an `inc_apply`. -/
theorem Parses.applying (parses : Parses options sent receiver receptions trace next)
    (absent : options.hasIncApplyFactory = false) :
    ∀ forwarding ∈ trace, forwarding.applying = false := by
  induction parses with
  | ended => simp
  | skipped _ _ ih => exact ih
  | parsed _ joined _ ih =>
      obtain ⟨_, _, _, -, -, -, applying⟩ := joined
      exact List.forall_mem_cons.mpr ⟨by simp [applying, absent], ih⟩

end

/-! ## Messages that are handled -/

section

variable {options : ForwarderOptions}

theorem outcomes_append (given : Option (List Content)) (earlier later : List Content) :
    options.outcomes given (earlier ++ later) =
      options.outcomes given earlier ++ options.outcomes (given.map (· ++ earlier)) later := by
  induction earlier generalizing given with
  | nil => cases given <;> simp [ForwarderOptions.outcomes]
  | cons content earlier ih =>
      cases given with
      | none => simpa [ForwarderOptions.outcomes] using ih none
      | some given => simpa [ForwarderOptions.outcomes] using ih (some (given ++ [content]))

@[simp] theorem outcomes_none (contents : List Content) :
    options.outcomes none contents = contents.map fun content => (content, some content) := by
  induction contents with
  | nil => rfl
  | cons content contents ih => rw [ForwarderOptions.outcomes, ih, List.map_cons]

@[simp] theorem reported_nil (compressLevel : UInt16) :
    options.reported ⟨compressLevel, []⟩ = [] := rfl

theorem reported_concat (parser : Parser) (bytes : List UInt8) :
    options.reported { parser with fed := parser.fed ++ [bytes] } =
      options.reported parser ++
        options.messages { parser with fed := parser.fed ++ [bytes] } := by
  rw [ForwarderOptions.reported, ForwarderOptions.reported, List.length_append,
    List.length_singleton, List.range_succ, List.flatMap_append]
  congr 1
  · refine List.flatMap_congr fun count inside => ?_
    have small : count + 1 ≤ parser.fed.length := List.mem_range.mp inside
    rw [List.take_append_of_le_length small]
  · simp [List.take_of_length_le]

end

namespace Forwarder

variable {τ : Type} [DecidableEq τ] {options : ForwarderOptions} {forwarder next last : Forwarder τ}

/-- What `current_inc_apply_` has been given, if it is set. -/
def currentGiven (forwarder : Forwarder τ) : Option (List Content) :=
  forwarder.currentIncApply.map forwarder.given

/-- The contents are handled, one after the other. -/
structure Handles (options : ForwarderOptions) (contents : List Content)
    (forwarder next : Forwarder τ) : Prop where
  receiver : next.receiver = forwarder.receiver
  current : next.currentIncApply = forwarder.currentIncApply
  given : ∀ tsi, next.given tsi =
    forwarder.given tsi ++ if forwarder.currentIncApply = some tsi then contents else []
  calls : next.calls = forwarder.calls ++
    ((options.outcomes forwarder.currentGiven contents).filterMap Prod.snd).map .pushMessage
  msgs : next.totalReceivedMsgs = forwarder.totalReceivedMsgs + UInt64.ofNat contents.length
  bytes : next.totalDecodedBytes = forwarder.totalDecodedBytes +
    UInt64.ofNat ((options.outcomes forwarder.currentGiven contents).map
      fun (content, raw) => (raw.getD content).bytes.length).sum

theorem Handles.currentGiven {contents : List Content}
    (handles : Handles options contents forwarder next) :
    next.currentGiven = forwarder.currentGiven.map (· ++ contents) := by
  rw [Forwarder.currentGiven, Forwarder.currentGiven, handles.current]
  cases current : forwarder.currentIncApply with
  | none => rfl
  | some tsi =>
      rw [Option.map_some, Option.map_some, Option.map_some, handles.given, if_pos current]

theorem Handles.refl (forwarder : Forwarder τ) : Handles options [] forwarder forwarder := by
  refine ⟨rfl, rfl, by simp, ?_, ?_, ?_⟩ <;>
    cases forwarder.currentGiven <;> simp [ForwarderOptions.outcomes]

theorem Handles.trans {earlier later : List Content}
    (first : Handles options earlier forwarder next)
    (second : Handles options later next last) :
    Handles options (earlier ++ later) forwarder last where
  receiver := second.receiver.trans first.receiver
  current := second.current.trans first.current
  given tsi := by
    rw [second.given, first.given, first.current]
    split <;> simp
  calls := by
    rw [second.calls, first.calls, first.currentGiven, outcomes_append, List.filterMap_append,
      List.map_append, List.append_assoc]
  msgs := by
    rw [second.msgs, first.msgs, List.length_append, UInt64.ofNat_add, UInt64.add_assoc]
  bytes := by
    rw [second.bytes, first.bytes, first.currentGiven, outcomes_append, List.map_append,
      List.sum_append, UInt64.ofNat_add, UInt64.add_assoc]

theorem handles_handleMessage (content : Content) :
    Handles options [content] forwarder (forwarder.handleMessage options content) := by
  rw [handleMessage]
  cases current : forwarder.currentIncApply with
  | none =>
      refine ⟨rfl, rfl, ?_, ?_, rfl, ?_⟩ <;> simp [currentGiven, call, decoded, current]
  | some tsi =>
      have given : ∀ other, Function.update forwarder.given tsi
          (forwarder.given tsi ++ [content]) other =
            forwarder.given other ++ if some tsi = some other then [content] else [] := by
        intro other
        by_cases same : other = tsi
        · simp [same]
        · simp [Function.update_of_ne same, Ne.symm same]
      dsimp only
      split
      · rename_i filled
        refine ⟨rfl, current.symm, ?_, ?_, rfl, ?_⟩
        · rw [current]
          exact given
        · simp [currentGiven, call, decoded, current, ForwarderOptions.outcomes, filled]
        · simp [currentGiven, call, decoded, current, ForwarderOptions.outcomes, filled]
      · rename_i empty
        refine ⟨rfl, current.symm, ?_, ?_, rfl, ?_⟩
        · rw [current]
          exact given
        · simp [currentGiven, decoded, current, ForwarderOptions.outcomes, empty]
        · simp [currentGiven, decoded, current, ForwarderOptions.outcomes, empty]

theorem handles_foldl (options : ForwarderOptions) (contents : List Content)
    (forwarder : Forwarder τ) :
    Handles options contents forwarder (contents.foldl (handleMessage options) forwarder) := by
  induction contents generalizing forwarder with
  | nil => exact .refl forwarder
  | cons content contents ih =>
      exact (handles_handleMessage content).trans (ih (forwarder.handleMessage options content))

/-! ## A `Parse` -/

/-- Something is forwarded, and counted. -/
structure Forwards (options : ForwarderOptions) (trace : List (Forwarding τ))
    (forwarder next : Forwarder τ) : Prop where
  calls : next.calls = forwarder.calls ++ trace.flatMap (Forwarding.calls options)
  msgs : next.totalReceivedMsgs = forwarder.totalReceivedMsgs +
    UInt64.ofNat (trace.map fun forwarding => (options.messages forwarding.parser).length).sum
  bytes : next.totalDecodedBytes = forwarder.totalDecodedBytes +
    UInt64.ofNat (trace.map (Forwarding.decodedBytes options)).sum

omit [DecidableEq τ] in
theorem Forwards.none (calls : next.calls = forwarder.calls)
    (msgs : next.totalReceivedMsgs = forwarder.totalReceivedMsgs)
    (bytes : next.totalDecodedBytes = forwarder.totalDecodedBytes) :
    Forwards options [] forwarder next :=
  ⟨by simp [calls], by simp [msgs], by simp [bytes]⟩

omit [DecidableEq τ] in
theorem Forwards.trans {earlier later : List (Forwarding τ)}
    (first : Forwards options earlier forwarder next) (second : Forwards options later next last) :
    Forwards options (earlier ++ later) forwarder last where
  calls := by rw [second.calls, first.calls, List.flatMap_append, List.append_assoc]
  msgs := by
    rw [second.msgs, first.msgs, List.map_append, List.sum_append, UInt64.ofNat_add,
      UInt64.add_assoc]
  bytes := by
    rw [second.bytes, first.bytes, List.map_append, List.sum_append, UInt64.ofNat_add,
      UInt64.add_assoc]

/-- What a `Parse` forwards, and what is left in `inc_apply`. -/
theorem forwards_parses {forwarding : Forwarding τ}
    (given : forwarder.currentGiven = forwarding.given options) :
    Forwards options [forwarding] forwarder
        (forwarder.parses options forwarding.timestamp forwarding.parser) ∧
      (forwarder.parses options forwarding.timestamp forwarding.parser).receiver =
        forwarder.receiver ∧
      ∀ tsi, (forwarder.parses options forwarding.timestamp forwarding.parser).given tsi =
        forwarder.given tsi ++
          if forwarder.currentIncApply = some tsi then options.messages forwarding.parser
          else [] := by
  have handles := handles_foldl options (options.messages forwarding.parser)
    (forwarder.call (.beginPush forwarding.timestamp))
  have same : (forwarder.call (.beginPush forwarding.timestamp)).currentGiven =
      forwarding.given options := given
  obtain ⟨receiver, current, after, calls, msgs, bytes⟩ := handles
  rw [same] at calls bytes
  refine ⟨⟨?_, ?_, ?_⟩, receiver, after⟩
  · rw [parses, call, calls]
    simp [call, Forwarding.calls, Forwarding.pushed, Forwarding.outcomes]
  · rw [parses, call, msgs]
    simp [call]
  · rw [parses, call, bytes]
    simp [call, Forwarding.decodedBytes, Forwarding.outcomes]

end Forwarder

/-! ## Peers -/

namespace PeerInfo

variable {options : ForwarderOptions} {datagrams : List (List UInt8)} {given : List Content}
  {peer : PeerInfo} {bytes payload : List UInt8}

/-- The `inc_apply` of a peer is as old as its parser, and was given all that this has reported; and
both are as old as the stream. -/
structure Attached (options : ForwarderOptions) (datagrams : List (List UInt8))
    (given : List Content) (peer : PeerInfo) : Prop where
  unjoined : peer.joined = false → peer.incApply = false
  given : peer.incApply = true → ∀ parser ∈ peer.parser, given = options.reported parser
  joined : peer.joined = true → ∃ parser, peer.parser = some parser ∧
    JoinedBy options.toReceiverOptions datagrams parser peer.incApply

/-- A peer whose stream is joined, just before its parser is given some bytes. -/
structure Ready (options : ForwarderOptions) (datagrams : List (List UInt8)) (payload : List UInt8)
    (given : List Content) (peer : PeerInfo) : Prop where
  joined : peer.joined = true
  given : peer.incApply = true → ∀ parser ∈ peer.parser, given = options.reported parser
  parser : ∃ parser, peer.parser = some parser ∧ JoinedBy options.toReceiverOptions datagrams
    { parser with fed := parser.fed ++ [payload] } peer.incApply

theorem attached_disjoin : peer.disjoin.Attached options datagrams given :=
  ⟨fun _ => rfl, nofun, nofun⟩

theorem attached_new (index : UInt32) :
    ({ beginIndex := index } : PeerInfo).Attached options datagrams given :=
  ⟨fun _ => rfl, nofun, nofun⟩

theorem Attached.follow (attached : peer.Attached options datagrams given) (index : UInt32) :
    (peer.follow index).1.Attached options datagrams given := by
  rw [PeerInfo.follow]
  split
  · exact ⟨fun _ => rfl, nofun, nofun⟩
  · exact ⟨attached.unjoined, attached.given, attached.joined⟩

/-- A stream that is joined here comes with a fresh parser, and with a fresh `inc_apply` or none. -/
theorem Attached.join (attached : peer.Attached options datagrams given) {joined : PeerInfo}
    (done : PGMReceiver.join options.toReceiverOptions peer bytes = some (joined, some payload)) :
    joined.Ready options (datagrams ++ [bytes]) payload
      (if Forwarder.createsIncApply options peer bytes then [] else given) := by
  rw [PGMReceiver.join] at done
  split at done
  · rename_i already
    obtain ⟨rfl, same⟩ := Prod.mk.inj (Option.some_inj.mp done)
    obtain rfl := Option.some_inj.mp same
    obtain ⟨parser, had, joined⟩ := attached.joined already
    refine ⟨already, ?_, parser, had, joined.next bytes⟩
    rw [Forwarder.createsIncApply, already, Bool.not_true, Bool.false_and, Bool.false_and,
      if_neg Bool.false_ne_true]
    exact attached.given
  · rename_i unjoined
    split at done
    · cases Option.some_inj.mp done
    · split at done
      · obtain ⟨rfl, same⟩ := Prod.mk.inj (Option.some_inj.mp done)
        obtain rfl := Option.some_inj.mp same
        have none := attached.unjoined (Bool.eq_false_iff.mpr unjoined)
        refine ⟨rfl, ?_, _, rfl, datagrams, bytes, [], rfl, rfl, rfl, ?_⟩
        · rintro applies _ ⟨⟩
          rw [if_pos (by simpa [Forwarder.createsIncApply, incUpdate, unjoined, none] using
            applies), reported_nil]
        · simp [incUpdate, none]
      · cases done

/-- A peer whose stream is not joined is left as it is. -/
theorem eq_of_join_none {options : ReceiverOptions} {joined : PeerInfo}
    (done : PGMReceiver.join options peer bytes = some (joined, none)) :
    joined = peer ∧ peer.joined = false := by
  rw [PGMReceiver.join] at done
  split at done
  · cases Option.some_inj.mp done
  · rename_i unjoined
    split at done
    · exact ⟨(Prod.mk.inj (Option.some_inj.mp done)).1.symm, Bool.eq_false_iff.mpr unjoined⟩
    · split at done <;> cases done

/-- A peer whose parser has been fed is attached again, or has been left. -/
theorem Ready.feed (ready : peer.Ready options datagrams payload given) {parser : Parser}
    {left : PeerInfo}
    (done : PGMReceiver.feed options.toReceiverOptions peer payload = some (parser, left)) :
    (∃ before, peer.parser = some before ∧
        parser = { before with fed := before.fed ++ [payload] }) ∧
      JoinedBy options.toReceiverOptions datagrams parser peer.incApply ∧
      left.Attached options datagrams
        (given ++ if peer.incApply then options.messages parser else []) := by
  obtain ⟨before, had, joined⟩ := ready.parser
  rw [PGMReceiver.feed, had] at done
  obtain ⟨rfl, rfl⟩ := Prod.mk.inj (Option.some_inj.mp done)
  refine ⟨⟨before, had, rfl⟩, joined, ?_⟩
  generalize after : (if peer.incApply then _ else _) = more
  split
  · exact attached_disjoin
  · refine ⟨fun unjoined => ?_, ?_, fun _ => ⟨_, rfl, joined⟩⟩
    · exact absurd (ready.joined.symm.trans unjoined) Bool.true_eq_false.mp
    · rintro applies _ ⟨⟩
      rw [← after, if_pos applies, reported_concat, ready.given applies before had]

end PeerInfo

/-! ## A datagram -/

namespace Forwarder

variable {τ : Type} [DecidableEq τ] {options : ForwarderOptions} {forwarder next last : Forwarder τ}
  {sent : τ → List (List UInt8)}

/-- Every peer is attached to what it has sent and to what its `inc_apply` was given. -/
def Attached (options : ForwarderOptions) (peers : τ → Option PeerInfo)
    (sent : τ → List (List UInt8)) (given : τ → List Content) : Prop :=
  ∀ tsi, ∀ peer ∈ peers tsi, peer.Attached options (sent tsi) (given tsi)

omit [DecidableEq τ] in
theorem Attached.identify (receiver : PGMReceiver τ) {given : τ → List Content}
    (attached : Attached options receiver.peers sent given) (tsi : τ) (index : UInt32) :
    (receiver.identify tsi index).1.Attached options (sent tsi) (given tsi) ∧
      Attached options (receiver.identify tsi index).2.peers sent given := by
  rw [PGMReceiver.identify]
  cases known : receiver.peers tsi with
  | none => exact ⟨PeerInfo.attached_new index, nofun⟩
  | some peer => exact ⟨(attached tsi peer known).follow index, attached⟩

theorem Attached.of_others {peers peers' : τ → Option PeerInfo} {given given' : τ → List Content}
    (attached : Attached options peers sent given) (tsi : τ) (bytes : List UInt8)
    (here : ∀ peer ∈ peers' tsi, peer.Attached options (sent tsi ++ [bytes]) (given' tsi))
    (others : ∀ other, other ≠ tsi → peers' other = peers other ∧ given' other = given other) :
    Attached options peers' (oneMore sent tsi bytes) given' := by
  intro other peer member
  by_cases same : other = tsi
  · subst same
    rw [oneMore, Function.update_self]
    exact here peer member
  · obtain ⟨kept, unchanged⟩ := others other same
    rw [unchanged, oneMore, Function.update_of_ne same]
    exact attached other peer (kept ▸ member)

theorem peers_setPeer (receiver : PGMReceiver τ) (tsi : τ) (peer : PeerInfo) :
    (receiver.setPeer tsi peer).peers tsi = some peer := Function.update_self ..

theorem peers_setPeer_of_ne (receiver : PGMReceiver τ) {tsi other : τ} (ne : other ≠ tsi)
    (peer : PeerInfo) : (receiver.setPeer tsi peer).peers other = receiver.peers other :=
  Function.update_of_ne ne ..

/-- A datagram is worked off as without the sinks, and what its parser reports is forwarded. -/
theorem forwards_packet (attached : Attached options forwarder.receiver.peers sent forwarder.given)
    {tsi : τ} {bytes : List UInt8} {timestamp : Int64}
    (done : forwarder.packet options tsi bytes timestamp = some next) :
    Attached options next.receiver.peers (oneMore sent tsi bytes) next.given ∧
      (Forwards options [] forwarder next ∧
          forwarder.receiver.packet options.toReceiverOptions tsi bytes timestamp =
            some ([], next.receiver) ∨
        ∃ forwarding : Forwarding τ, forwarding.tsi = tsi ∧ forwarding.timestamp = timestamp ∧
          Forwards options [forwarding] forwarder next ∧
          JoinedBy options.toReceiverOptions (sent tsi ++ [bytes]) forwarding.parser
            forwarding.applying ∧
          forwarder.receiver.packet options.toReceiverOptions tsi bytes timestamp =
            some (forwarding.deliveries, next.receiver)) := by
  rw [packet] at done
  rw [PGMReceiver.packet]
  split at done
  · cases done
  · rename_i long
    rw [if_neg long]
    simp only [Option.bind_eq_bind, Option.pure_def] at done ⊢
    have known := Attached.identify
      { forwarder.receiver with
        totalReceivedBytes :=
          forwarder.receiver.totalReceivedBytes + UInt64.ofNat bytes.length } attached tsi
        (indexOf bytes)
    generalize PGMReceiver.identify _ tsi (indexOf bytes) = identified at *
    obtain ⟨peer, receiver⟩ := identified
    obtain ⟨here, others⟩ := known
    dsimp only at here others done ⊢
    have counted : ({ peer with receivedCnt := peer.receivedCnt + 1 } : PeerInfo).Attached options
        (sent tsi) (forwarder.given tsi) := ⟨here.unjoined, here.given, here.joined⟩
    generalize ({ peer with receivedCnt := peer.receivedCnt + 1 } : PeerInfo) = peer' at *
    obtain ⟨⟨joined, payload⟩, joins, rest⟩ := Option.bind_eq_some_iff.mp done
    rw [joins, Option.bind_some]
    cases payload with
    | none =>
        obtain rfl := Option.some_inj.mp rest
        obtain ⟨rfl, unjoined⟩ := PeerInfo.eq_of_join_none joins
        refine ⟨others.of_others tsi bytes ?_ fun other ne => ⟨peers_setPeer_of_ne _ ne _, rfl⟩,
          Or.inl ⟨.none rfl rfl rfl, rfl⟩⟩
        rw [peers_setPeer]
        rintro _ ⟨⟩
        exact ⟨counted.unjoined, counted.given, fun already => absurd already (by simp [unjoined])⟩
    | some payload =>
        obtain ⟨⟨parser, left⟩, feeds, rest⟩ := Option.bind_eq_some_iff.mp rest
        obtain rfl := Option.some_inj.mp rest
        have ready := counted.join joins
        obtain ⟨⟨before, had, rfl⟩, since, after⟩ := ready.feed feeds
        let begun : Forwarder τ :=
          { forwarder with
            receiver := { receiver.setPeer tsi left with lastMsgTimestamp := timestamp }
            given :=
              if createsIncApply options peer' bytes then Function.update forwarder.given tsi []
              else forwarder.given
            currentIncApply := if joined.incApply then some tsi else none }
        let forwarding : Forwarding τ :=
          ⟨timestamp, tsi, { before with fed := before.fed ++ [payload] }, joined.incApply⟩
        have fresh : begun.given tsi =
            if createsIncApply options peer' bytes then [] else forwarder.given tsi := by
          simp only [begun]
          split <;> simp
        have given : begun.currentGiven = forwarding.given options := by
          rw [currentGiven, Forwarding.given]
          cases applies : joined.incApply with
          | false => simp [begun, forwarding, applies]
          | true =>
              have told := ready.given applies before had
              rw [← fresh] at told
              simp [begun, forwarding, applies] at told ⊢
              exact told
        obtain ⟨forwards, kept, heard⟩ := forwards_parses given
        refine ⟨others.of_others tsi bytes ?_ fun other ne => ⟨?_, ?_⟩,
          Or.inr ⟨forwarding, rfl, rfl, ⟨forwards.calls, forwards.msgs, forwards.bytes⟩, since, ?_⟩⟩
        · rw [kept, heard tsi, fresh]
          have same : begun.receiver.peers tsi = some left := peers_setPeer receiver tsi left
          rw [same]
          rintro _ ⟨⟩
          cases applies : joined.incApply with
          | false => simpa [begun, applies] using after
          | true => simpa [begun, forwarding, applies] using after
        · rw [kept]
          exact peers_setPeer_of_ne receiver ne left
        · have apart : begun.given other = forwarder.given other := by
            simp only [begun]
            split <;> simp [ne]
          have elsewhere : begun.currentIncApply ≠ some other := by
            simp only [begun]
            split
            · exact fun same => ne (Option.some_inj.mp same).symm
            · exact Option.some_ne_none other ∘ Eq.symm
          rw [heard other, if_neg elsewhere, List.append_nil, apart]
        · dsimp only
          rw [feeds, Option.bind_some]
          exact congrArg (fun receiver => some (_, receiver)) kept.symm

/-! ## Many datagrams -/

theorem receiver_parses (options : ForwarderOptions) (forwarder : Forwarder τ) (timestamp : Int64)
    (parser : Parser) : (forwarder.parses options timestamp parser).receiver = forwarder.receiver :=
  (handles_foldl options (options.messages parser)
    (forwarder.call (.beginPush timestamp))).receiver

/-- The sinks make no difference to what becomes of a receiver. -/
theorem packet_receiver (options : ForwarderOptions) (forwarder : Forwarder τ) (tsi : τ)
    (bytes : List UInt8) (timestamp : Int64) :
    (forwarder.packet options tsi bytes timestamp).map Forwarder.receiver =
      (forwarder.receiver.packet options.toReceiverOptions tsi bytes timestamp).map Prod.snd := by
  rw [packet, PGMReceiver.packet]
  split
  · rfl
  · simp only [Option.bind_eq_bind, Option.pure_def]
    generalize PGMReceiver.identify _ tsi (indexOf bytes) = identified
    obtain ⟨peer, receiver⟩ := identified
    dsimp only
    cases PGMReceiver.join options.toReceiverOptions _ bytes with
    | none => rfl
    | some joins =>
        obtain ⟨joined, _ | payload⟩ := joins
        · rfl
        · simp only [Option.bind_some]
          cases PGMReceiver.feed options.toReceiverOptions joined payload with
          | none => rfl
          | some fed => exact congrArg some (receiver_parses ..)

theorem inEvent_receiver (options : ForwarderOptions) (receptions : List (Reception τ))
    (forwarder : Forwarder τ) :
    (forwarder.inEvent options receptions).map Forwarder.receiver =
      (forwarder.receiver.inEvent options.toReceiverOptions receptions).map Prod.snd := by
  induction receptions generalizing forwarder with
  | nil => rfl
  | cons reception receptions ih =>
      cases reception with
      | data tsi bytes timestamp =>
          have same := packet_receiver options forwarder tsi bytes timestamp
          rw [inEvent, PGMReceiver.inEvent]
          cases forwards : forwarder.packet options tsi bytes timestamp with
          | none =>
              rw [forwards, Option.map_none, eq_comm, Option.map_eq_none_iff] at same
              rw [same]
              rfl
          | some next =>
              rw [forwards, Option.map_some, eq_comm, Option.map_eq_some_iff] at same
              obtain ⟨⟨first, receiver⟩, worked, rfl⟩ := same
              simp only [worked, Option.bind_eq_bind, Option.bind_some, ih, Option.map_bind]
              cases PGMReceiver.inEvent options.toReceiverOptions receptions next.receiver <;> rfl
      | nothing => rfl
      | lost => rfl

/-- Datagrams are worked off as without the sinks, and what the parsers report is forwarded. -/
theorem forwards_inEvent (attached : Attached options forwarder.receiver.peers sent forwarder.given)
    {receptions : List (Reception τ)} (done : forwarder.inEvent options receptions = some next) :
    ∃ trace, Forwards options trace forwarder next ∧
      Parses options.toReceiverOptions sent forwarder.receiver receptions trace next.receiver := by
  induction receptions generalizing forwarder sent with
  | nil =>
      obtain rfl := Option.some_inj.mp done
      exact ⟨[], .none rfl rfl rfl, .ended (by simp)⟩
  | cons reception receptions ih =>
      cases reception with
      | data tsi bytes timestamp =>
          obtain ⟨middle, packets, rest⟩ := Option.bind_eq_some_iff.mp done
          obtain ⟨attached', ⟨forwards, worked⟩ | ⟨forwarding, rfl, rfl, forwards, joined, worked⟩⟩
            := forwards_packet attached packets
          · obtain ⟨later, forwards', parses⟩ := ih attached' rest
            exact ⟨later, forwards.trans forwards', .skipped worked parses⟩
          · obtain ⟨later, forwards', parses⟩ := ih attached' rest
            exact ⟨forwarding :: later, forwards.trans forwards', .parsed worked joined parses⟩
      | nothing =>
          obtain rfl := Option.some_inj.mp done
          exact ⟨[], .none rfl rfl rfl, .ended (by simp)⟩
      | lost =>
          obtain rfl := Option.some_inj.mp done
          exact ⟨[], .none rfl rfl rfl, .ended (by simp)⟩

end Forwarder

end FlashForwarder
