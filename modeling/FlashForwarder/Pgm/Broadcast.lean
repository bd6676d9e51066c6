import FlashForwarder.Pgm.Session
import FlashForwarder.Pgm.Transmission

/-!
# From the pushing thread to the parsers

The sender with a record, and a receiver that its packets reach in order, or not at all.
-/

namespace FlashForwarder

open Transition

namespace SenderOptions

variable {σ π : Type} (options : SenderOptions σ π)

theorem length_replay (serializer : σ) (groups : List (List (List UInt8))) :
    (options.replay serializer groups).1.length = groups.length := by
  induction groups generalizing serializer with
  | nil => rfl
  | cons group groups ih =>
      rw [replay]
      exact congrArg (· + 1) (ih _)

/-- A piece of the batches that starts with a batch comes from the groups from one on. -/
theorem exists_groups {serializer : σ} {groups : List (List (List UInt8))}
    {batches front back : List (List UInt8)}
    (replayed : (options.replay serializer groups).1 = batches) (split : batches = front ++ back) :
    ∃ earlier later, groups = earlier ++ later ∧
      back = (options.replay (options.replay serializer earlier).2 later).1 := by
  refine ⟨groups.take front.length, groups.drop front.length,
    (List.take_append_drop _ _).symm, ?_⟩
  have both := replay_append options serializer (groups.take front.length)
    (groups.drop front.length)
  rw [List.take_append_drop] at both
  have count := options.length_replay serializer groups
  rw [replayed, split, List.length_append] at count
  have first : (options.replay serializer (groups.take front.length)).1.length = front.length := by
    rw [length_replay, List.length_take]
    omega
  rw [both, split] at replayed
  exact (List.append_inj_right replayed first).symm

end SenderOptions

/-- The runs of a sender with a record and a receiver, with the parsers that were called for it.
Packets arrive in order, or not at all; each arrival is noted with the session that it found. -/
inductive Broadcasts {σ τ : Type} [DecidableEq τ] (options : FedOptions σ)
    (receiving : ReceiverOptions) (tsi : τ) (serializer : σ) :
    List (Session (Serialising σ) Ledger τ × SessionAction Ledger τ) → List Parser →
      Session (Serialising σ) Ledger τ → Prop
  | plugged {feed : Feed} : feed.Unused → Broadcasts options receiving tsi serializer [] []
      ⟨RecordedSender.init serializer feed, [], [], PGMReceiver.init, 0⟩
  | pushes {arrivals : List (Session (Serialising σ) Ledger τ × SessionAction Ledger τ)}
      {trace : List Parser} {session : Session (Serialising σ) Ledger τ} (step : PushStep) :
      Broadcasts options receiving tsi serializer arrivals trace session →
      Broadcasts options receiving tsi serializer arrivals trace
        { session with
          sender := { session.sender with ioPipe := session.sender.ioPipe.act step } }
  | handles {arrivals : List (Session (Serialising σ) Ledger τ × SessionAction Ledger τ)}
      {trace : List Parser} {session : Session (Serialising σ) Ledger τ}
      {next : RecordedSender σ} {seen : Sent} {fuel : Nat} (event : SenderEvent)
      (pushed : List (List PushStep)) (status : SendStatus) :
      Broadcasts options receiving tsi serializer arrivals trace session →
      (RecordedSender.plain session.sender).Enabled event →
      (RecordedSender.called session.sender event pushed).outEvent
        options.toSenderOptions.recorded fuel status = some (seen, next) →
      Broadcasts options receiving tsi serializer arrivals trace
        { session with
          sender := next
          batches := session.batches ++ seen.batches
          sent := session.sent ++ seen.packet.toList }
  | arrives {arrivals : List (Session (Serialising σ) Ledger τ × SessionAction Ledger τ)}
      {trace : List Parser} {session next : Session (Serialising σ) Ledger τ}
      {label : Option Parser} (position : Nat) (timestamp : Int64) :
      Broadcasts options receiving tsi serializer arrivals trace session →
      session.passed ≤ position →
      session.exec options.toSenderOptions.recorded receiving tsi (.arrive position timestamp) =
        some (label, next) →
      Broadcasts options receiving tsi serializer
        (arrivals ++ [(session, .arrive position timestamp)]) (trace ++ label.toList) next
  | foreign {arrivals : List (Session (Serialising σ) Ledger τ × SessionAction Ledger τ)}
      {trace : List Parser} {session next : Session (Serialising σ) Ledger τ}
      {label : Option Parser} (other : τ) (bytes : List UInt8) (timestamp : Int64) :
      Broadcasts options receiving tsi serializer arrivals trace session → other ≠ tsi →
      session.exec options.toSenderOptions.recorded receiving tsi
        (.foreign other bytes timestamp) = some (label, next) →
      Broadcasts options receiving tsi serializer arrivals (trace ++ label.toList) next

namespace Broadcasts

variable {σ τ : Type} [DecidableEq τ] {options : FedOptions σ} {receiving : ReceiverOptions}
  {tsi : τ} {serializer : σ}
  {arrivals : List (Session (Serialising σ) Ledger τ × SessionAction Ledger τ)}
  {trace : List Parser} {session : Session (Serialising σ) Ledger τ}

theorem records (run : Broadcasts options receiving tsi serializer arrivals trace session) :
    Records options serializer session.batches session.sent session.sender := by
  induction run with
  | plugged unused => exact .plugged unused
  | pushes step _ ih => exact .pushes step ih
  | handles event pushed status _ enabled done ih =>
      exact .handles event pushed status ih enabled done
  | arrives position timestamp _ _ done ih =>
      obtain ⟨bytes, -, rest⟩ := Option.bind_eq_some_iff.mp done
      obtain ⟨⟨deliveries, receiver⟩, -, rest⟩ := Option.bind_eq_some_iff.mp rest
      obtain ⟨-, rfl⟩ := Prod.mk.inj (Option.some_inj.mp rest)
      exact ih
  | foreign other bytes timestamp _ _ done ih =>
      obtain ⟨⟨deliveries, receiver⟩, -, rest⟩ := Option.bind_eq_some_iff.mp done
      obtain ⟨-, rfl⟩ := Prod.mk.inj (Option.some_inj.mp rest)
      exact ih

/-- Whatever a parser was given is one piece of the stream, in a run that leaves no loss
unnoticed. -/
theorem intact (run : Broadcasts options receiving tsi serializer arrivals trace session)
    (noticed : ∀ arrival ∈ arrivals, arrival.1.Noticed tsi arrival.2) :
    (∃ packets, Session.Holds tsi 0 packets session) ∧
      ∀ parser ∈ trace, session.Intact parser := by
  induction run with
  | plugged unused =>
      have records : Records options serializer [] [] (RecordedSender.init serializer _) :=
        .plugged unused
      obtain ⟨-, packets, packetised⟩ := records.kept
      exact ⟨⟨packets, packetised, nofun⟩, nofun⟩
  | pushes step _ ih =>
      obtain ⟨⟨packets, packetised, follows⟩, whole⟩ := ih noticed
      refine ⟨⟨packets, { packetised with }, follows⟩, fun parser among => ?_⟩
      exact (whole parser among).later (List.append_nil _).symm (List.append_nil _).symm
  | @handles _ trace session next seen fuel event pushed status _ _ done ih =>
      obtain ⟨⟨packets, holds⟩, whole⟩ := ih noticed
      have called : session.exec options.toSenderOptions.recorded receiving tsi
          (.call event { session.sender.ioPipe with
            toFeed := ((RecordedSender.plain session.sender).called event pushed).ioPipe } fuel
              status) = some (none,
          { session with
            sender := next
            batches := session.batches ++ seen.batches
            sent := session.sent ++ seen.packet.toList }) := by
        rw [RecordedSender.called] at done
        simp only [Session.exec, done]
        rfl
      obtain ⟨holds', later, -⟩ := holds.step
        ⟨.call event _ fuel status, trivial, trivial, called⟩
      exact ⟨holds', fun parser among => later parser (whole parser among)⟩
  | arrives position timestamp _ order done ih =>
      obtain ⟨⟨packets, holds⟩, whole⟩ := ih fun arrival member =>
        noticed arrival (List.mem_append_left _ member)
      have last := noticed _ (List.mem_append_right _ (List.mem_singleton_self _))
      obtain ⟨holds', later, here⟩ := holds.step
        ⟨.arrive position timestamp, order, last, done⟩
      refine ⟨holds', fun parser among => ?_⟩
      rcases List.mem_append.mp among with before | last
      · exact later parser (whole parser before)
      · exact here parser (Option.mem_toList.mp last)
  | foreign other bytes timestamp _ different done ih =>
      obtain ⟨⟨packets, holds⟩, whole⟩ := ih noticed
      obtain ⟨holds', later, here⟩ := holds.step
        ⟨.foreign other bytes timestamp, different, trivial, done⟩
      refine ⟨holds', fun parser among => ?_⟩
      rcases List.mem_append.mp among with before | last
      · exact later parser (whole parser before)
      · exact here parser (Option.mem_toList.mp last)

/-- What a parser was given is the beginning of what messages were serialised to, from a group of
them on, if no loss goes unnoticed.  The messages are what was pushed, in order; none is missing or
doubled. -/
theorem parsed_is_pushed
    (run : Broadcasts options receiving tsi serializer arrivals trace session)
    (noticed : ∀ arrival ∈ arrivals, arrival.1.Noticed tsi arrival.2)
    (moderate : ∀ content ∈ session.sender.ioPipe.contents,
      content.bytes.length + session.sender.ioPipe.pushEnd.cacheSize < 2147483648) :
    (∀ parser ∈ trace, ∃ earlier later, session.sender.serializer.groups = earlier ++ later ∧
      parser.fed.flatten <+: (options.toSenderOptions.replay
        (options.toSenderOptions.replay serializer earlier).2 later).1.flatten) ∧
      session.sender.serializer.groups.flatten.flatten ++
          session.sender.ioPipe.unread.flatMap PushedMessage.content =
        session.sender.ioPipe.contents.flatMap Content.bytes := by
  obtain ⟨-, replayed, -⟩ := run.records.packets
  refine ⟨fun parser among => ?_, run.records.bytes_eq moderate⟩
  obtain ⟨front, back, split, piece⟩ := ((run.intact noticed).2 parser among).contiguous
  obtain ⟨earlier, later, groups, rfl⟩ := options.toSenderOptions.exists_groups replayed split
  exact ⟨earlier, later, groups, piece⟩

/-- Two bytes that were pushed reach a parser. -/
theorem parsed_is_pushed_twoBytes : ∃ (session : Session (Serialising (List UInt8)) Ledger Nat)
    (earlier later : List (List (List UInt8))),
    session.sender.serializer.groups = earlier ++ later ∧
      [1, 2, 0] <+: (PGMSender.plainOptions.toSenderOptions.replay
        (PGMSender.plainOptions.toSenderOptions.replay [] earlier).2 later).1.flatten := by
  have start : Broadcasts PGMSender.plainOptions Session.plainReceiver 0 []
      [] [] ⟨RecordedSender.init [] PGMSender.quietFeed, [], [], PGMReceiver.init, 0⟩ :=
    .plugged ⟨rfl, rfl, rfl, rfl⟩
  have pushed : Broadcasts PGMSender.plainOptions Session.plainReceiver 0 []
      [] [] ⟨twoBytes, [], [], PGMReceiver.init, 0⟩ :=
    (((start.pushes (.call (.beginPush 0))).pushes
      (.call (.pushMessage ⟨[1, 2], by decide⟩))).pushes (.call .endPush)).pushes .write
  have ran : ∃ seen next, (twoBytes.called .outEvent []).outEvent
      PGMSender.plainOptions.toSenderOptions.recorded 3 .normal = some (seen, next) ∧
      next.ioPipe.contents = [⟨[1, 2], by decide⟩] ∧ next.ioPipe.pushEnd.cacheSize = 900 ∧
      ∃ last, Session.exec PGMSender.plainOptions.toSenderOptions.recorded Session.plainReceiver 0
        ⟨next, [] ++ seen.batches, [] ++ seen.packet.toList, PGMReceiver.init, 0⟩ (.arrive 0 7) =
          some (some ⟨0, [[1, 2, 0]]⟩, last) ∧ last.sender = next := by
    refine ⟨_, _, rfl, ?_⟩
    refine ⟨rfl, rfl, _, rfl, rfl⟩
  obtain ⟨seen, next, sends, contents, size, last, parses, same⟩ := ran
  have sent := pushed.handles .outEvent [] .normal rfl sends
  have parsed := sent.arrives 0 7 (Nat.le_refl 0) parses
  obtain ⟨pieces, -⟩ := parsed_is_pushed parsed
    (by rintro _ (_ | ⟨_, ⟨⟩⟩); exact Or.inl rfl) (by simp [same, contents, size])
  obtain ⟨earlier, later, groups, piece⟩ := pieces _ (List.mem_singleton.mpr rfl)
  exact ⟨last, earlier, later, groups, piece⟩

end Broadcasts

end FlashForwarder
