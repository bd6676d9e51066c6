import FlashForwarder.Pgm.Forwarder
import FlashForwarder.Pgm.ReceiverEngine

/-!
# The relay

A receiver pushes what its parsers report to a sender, which sends it on.  The thread of the
receiver makes its calls of `BeginPush`, `PushMessage` and `EndPush` one after the other; the sender
reads, serialises and sends whenever it is called.
-/

namespace FlashForwarder

open ProgramLoop Transition

section

variable {τ : Type} [DecidableEq τ] {options : ForwarderOptions} {receptions : List (Reception τ)}
  {forwarder : Forwarder τ}

omit [DecidableEq τ] in
theorem Forwarder.attached_init :
    Forwarder.Attached options (Forwarder.init : Forwarder τ).receiver.peers (fun _ => [])
      fun _ => [] := nofun

omit [DecidableEq τ] in
theorem pushed_of_not_applying {forwarding : Forwarding τ} (plain : forwarding.applying = false) :
    forwarding.pushed options = options.messages forwarding.parser := by
  simp [Forwarding.pushed, Forwarding.outcomes, Forwarding.given, plain]

omit [DecidableEq τ] in
/-- The contents of the calls are those that are pushed. -/
theorem contents_calls (trace : List (Forwarding τ)) :
    (trace.flatMap (Forwarding.calls options)).flatMap PushCall.contents =
      trace.flatMap (Forwarding.pushed options) := by
  rw [List.flatMap_assoc]
  refine List.flatMap_congr fun forwarding _ => ?_
  rw [Forwarding.calls, List.flatMap_append, List.flatMap_cons, List.flatMap_map]
  simp [PushCall.contents]

omit [DecidableEq τ] in
/-- The last call, if there was one, was `EndPush`. -/
theorem getLast_calls (trace : List (Forwarding τ)) :
    ∀ call ∈ (trace.flatMap (Forwarding.calls options)).getLast?, call = .endPush := by
  rcases List.eq_nil_or_concat trace with rfl | ⟨earlier, forwarding, rfl⟩
  · simp
  · rw [List.concat_eq_append, List.flatMap_append, List.flatMap_singleton, Forwarding.calls,
      ← List.append_assoc, List.getLast?_concat]
    rintro _ ⟨⟩
    rfl

/-! ## Results -/

/-- What a receiver forwards is told by the datagrams.  Every `Parse` comes to the sinks as a
`BeginPush`, its messages, and an `EndPush`; a peer has an `inc_apply` just if the datagram with
which its stream was joined asked for one, and that has been given all that the parser of the peer
has reported; and the status counts what was reported and what was pushed. -/
theorem reported_is_forwarded {msgvLen : Nat} {given : List (τ × List UInt8)}
    {deliveries : List (Delivery τ)} {engine : ReceiverEngine τ}
    (lives : ReceiverEngine.Lives options.toReceiverOptions msgvLen given deliveries engine) :
    ∃ (arrivals : _) (forwarder : Forwarder τ) (trace : List (Forwarding τ)),
      arrivals.map Prod.fst = given ∧
      Forwarder.init.inEvent options (ReceiverEngine.receptionsOf arrivals) = some forwarder ∧
      Parses options.toReceiverOptions (fun _ => []) .init (ReceiverEngine.receptionsOf arrivals)
        trace forwarder.receiver ∧
      deliveries = trace.flatMap Forwarding.deliveries ∧
      forwarder.calls = trace.flatMap (Forwarding.calls options) ∧
      forwarder.totalReceivedMsgs = UInt64.ofNat
        (trace.map fun forwarding => (options.messages forwarding.parser).length).sum ∧
      forwarder.totalDecodedBytes = UInt64.ofNat
        (trace.map (Forwarding.decodedBytes options)).sum ∧
      (options.hasIncApplyFactory = false → ∀ forwarding ∈ trace,
        forwarding.pushed options = options.messages forwarding.parser) := by
  obtain ⟨receiver, ⟨arrivals, all, ran⟩, -⟩ := lives.follows.worked
  have same := Forwarder.inEvent_receiver options (ReceiverEngine.receptionsOf arrivals)
    Forwarder.init
  rw [show Forwarder.init.receiver = PGMReceiver.init from rfl, ran, Option.map_some] at same
  obtain ⟨forwarder, forwards, rfl⟩ := Option.map_eq_some_iff.mp same
  obtain ⟨trace, forwarded, parses⟩ := Forwarder.forwards_inEvent Forwarder.attached_init forwards
  obtain ⟨rfl, -⟩ := Prod.mk.inj (Option.some_inj.mp (ran.symm.trans parses.inEvent))
  refine ⟨arrivals, forwarder, trace, all, forwards, parses, rfl, forwarded.calls, ?_, ?_,
    fun absent forwarding member =>
      pushed_of_not_applying (parses.applying absent forwarding member)⟩
  · rw [forwarded.msgs]
    exact UInt64.zero_add _
  · rw [forwarded.bytes]
    exact UInt64.zero_add _

/-- Whatever a parser is given, it reports two bytes, and what is made of anything is two others. -/
def twoBytesEach : ForwarderOptions :=
  { ReceiverEngine.heedless with
    messages := fun _ => [⟨[2, 1], by decide⟩]
    apply := fun _ _ => ⟨[1, 2], small_twoBytes⟩ }

theorem reported_is_forwarded_twoBytes : ∃ (arrivals : _) (forwarder : Forwarder Nat)
    (trace : List (Forwarding Nat)),
    arrivals.map Prod.fst = [(5, [0, 128, 7, 0, 0, 0, 1, 2])] ∧
      Parses twoBytesEach.toReceiverOptions (fun _ => []) .init
        (ReceiverEngine.receptionsOf arrivals) trace forwarder.receiver ∧
      forwarder.calls = trace.flatMap (Forwarding.calls twoBytesEach) ∧
      (trace.flatMap Forwarding.deliveries).length = 3 := by
  obtain ⟨deliveries, engine, lives, -, three⟩ := ReceiverEngine.lives_oneDatagram
  obtain ⟨arrivals, forwarder, trace, given, -, parses, same, calls, -⟩ :=
    reported_is_forwarded (show ReceiverEngine.Lives twoBytesEach.toReceiverOptions _ _ _ _ from
      lives)
  exact ⟨arrivals, forwarder, trace, given, parses, calls, same ▸ three⟩

/-- What a sink sends on is what the receiver makes of what its parsers report.  While the receiver
goes on, the messages that the sender has read and those it has still to read are made of what was
pushed up to some content, in order; once the receiver and the sender are at rest, all that was
pushed has been sent. -/
theorem relayed (worked : Forwarder.init.inEvent options receptions = some forwarder)
    {σ : Type} {sending : FedOptions σ} {serializer : σ} {batches sent : List (List UInt8)}
    {sender : RecordedSender σ} (records : Records sending serializer batches sent sender)
    (made : sender.ioPipe.calls <+: forwarder.calls)
    (moderate : ∀ content ∈ sender.ioPipe.contents,
      content.bytes.length + sender.ioPipe.pushEnd.cacheSize < 2147483648) :
    ∃ trace : List (Forwarding τ),
      Parses options.toReceiverOptions (fun _ => []) .init receptions trace forwarder.receiver ∧
      (options.hasIncApplyFactory = false → ∀ forwarding ∈ trace,
        forwarding.pushed options = options.messages forwarding.parser) ∧
      (∃ parts : List (List Content), parts.flatten <+: trace.flatMap (Forwarding.pushed options) ∧
        sender.serializer.groups.flatten ++ sender.ioPipe.unread.map PushedMessage.content =
          parts.map fun part => part.flatMap Content.bytes) ∧
      (sender.ioPipe.calls = forwarder.calls → ¬sender.plain.Awake →
        sender.ioPipe.pending = [] →
          sender.serializer.groups.flatten.flatten =
              (trace.flatMap (Forwarding.pushed options)).flatMap Content.bytes ∧
            ∃ packets, sent = datagrams 0 packets ∧ payloads packets =
              (sending.toSenderOptions.replay serializer
                sender.serializer.groups).1.flatten) := by
  obtain ⟨trace, forwards, parses⟩ := Forwarder.forwards_inEvent Forwarder.attached_init worked
  have calls : forwarder.calls = trace.flatMap (Forwarding.calls options) := forwards.calls
  refine ⟨trace, parses, fun absent forwarding member =>
    pushed_of_not_applying (parses.applying absent forwarding member), ?_, fun all rest returned =>
      ?_⟩
  · obtain ⟨⟨parts, whole, messages⟩, -⟩ := records.messages moderate
    refine ⟨parts, ?_, messages⟩
    rw [whole, ← contents_calls, ← calls]
    obtain ⟨later, same⟩ := made
    exact ⟨later.flatMap PushCall.contents, by rw [← same, List.flatMap_append]; rfl⟩
  · have ended := records.ended moderate (by
      rw [all, calls]
      exact getLast_calls trace)
    obtain ⟨-, replayed, packets, encoded, stream⟩ := records.packets
    obtain ⟨nothing, done, read⟩ := records.drained rest
    have bytes := records.bytes_eq moderate
    rw [nothing, List.append_nil] at encoded
    rw [done, List.append_nil] at stream
    refine ⟨?_, packets, encoded, by rw [stream, replayed]⟩
    rw [← contents_calls, ← calls, ← all]
    rw [Ledger.contents, Ledger.unread, read, returned, ended] at bytes
    simpa using bytes

/-- Two bytes are reported, two others pushed and sent. -/
theorem relayed_twoBytes : ∃ (sender : RecordedSender (List UInt8)) (forwarder : Forwarder Nat)
    (trace : List (Forwarding Nat)),
    Parses twoBytesEach.toReceiverOptions (fun _ => []) .init
        [.data 5 [0, 128, 7, 0, 0, 0, 1, 2] 0] trace forwarder.receiver ∧
      sender.serializer.groups.flatten.flatten =
        (trace.flatMap (Forwarding.pushed twoBytesEach)).flatMap Content.bytes ∧
      ∃ packets, [[0, 0, 0, 0, 0, 0, 1, 2, 0]] = datagrams 0 packets := by
  have worked : ∃ forwarder : Forwarder Nat, Forwarder.init.inEvent twoBytesEach
      [.data 5 [0, 128, 7, 0, 0, 0, 1, 2] 0] = some forwarder ∧ forwarder.calls = pushTwoBytes :=
    ⟨_, rfl, rfl⟩
  obtain ⟨forwarder, worked, pushes⟩ := worked
  obtain ⟨batches, sent, sender, records, same, calls, size, rest, returned, -⟩ := records_twoBytes
  have all : sender.ioPipe.calls = forwarder.calls := calls.trans pushes.symm
  obtain ⟨trace, parses, -, -, sends⟩ := relayed worked records (all ▸ List.prefix_refl _)
    (by simp [contents_twoBytes calls, size])
  obtain ⟨bytes, packets, encoded, -⟩ := sends all rest returned
  exact ⟨sender, forwarder, trace, parses, bytes, packets, same ▸ encoded⟩

end

end FlashForwarder
