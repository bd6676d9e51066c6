import FlashForwarder.Service.InputService
import FlashForwarder.SzBinary.Delivery
import FlashForwarder.SzBinary.Framing

/-!
# The conversation

What the service hears since it last reconnected is decoded as one stream, whatever the timers and
the writes do in between.  What it says and what it takes down is told by the events alone; the
buffers of the encoder do not show.  And it reads with one operation at a time, as long as nothing
that was superseded comes to a good end.
-/

namespace FlashForwarder

open Asynchronous SzBinaryDecoder

namespace SzBinaryDecoder

theorem Feeds.concat {decoder final : SzBinaryDecoder} {chunks : List Chunk} {rets : List Int}
    {handed : List (List UInt8)} (feeds : Feeds decoder chunks rets handed final) {chunk : Chunk}
    {result : Decoded} (decodes : Decodes final chunk result) :
    Feeds decoder (chunks ++ [chunk]) (rets ++ [result.ret]) (handed ++ result.handed)
      result.decoder := by
  induction feeds with
  | nil decoder => simpa using Feeds.cons decodes (.nil _)
  | cons first _ ih =>
      rw [List.append_assoc]
      exact .cons first (ih decodes)

end SzBinaryDecoder

namespace InputService

variable {service next last : InputService} {steps : List (InputService × Event)}

/-! ## What is heard -/

/-- What was read since the decoder was last reset. -/
structure Hearing where
  /-- The chunks, as they were read. -/
  chunks : List Chunk
  /-- The messages that were handled. -/
  handed : List (List UInt8)

/-- What has been heard after a step. -/
def Hearing.after (hearing : Hearing) : InputService × Event → Hearing
  | (_, .read _ (.done received)) =>
      ⟨hearing.chunks ++ [received.chunk], hearing.handed ++ received.decoded.handed⟩
  | (_, .timer .reconnect false _ _) => ⟨[], []⟩
  | _ => hearing

/-- What has been heard after some steps. -/
def hearing (steps : List (InputService × Event)) : Hearing := steps.foldl Hearing.after ⟨[], []⟩

theorem hearing_concat (steps : List (InputService × Event)) (step : InputService × Event) :
    hearing (steps ++ [step]) = (hearing steps).after step := by
  rw [hearing, List.foldl_append]
  rfl

/-- What an event makes of the decoder is what it makes of what has been heard. -/
theorem hearing_exec {event : Event} (enabled : service.Enabled event) {hearing : Hearing}
    {rets : List Int} (feeds : Feeds fresh hearing.chunks rets hearing.handed service.decoder) :
    ∃ rets, Feeds fresh (hearing.after (service, event)).chunks rets
      (hearing.after (service, event)).handed (service.exec event).decoder := by
  obtain ⟨-, possible⟩ := enabled
  have kept : ∀ event, (service.exec event).decoder = service.decoder →
      hearing.after (service, event) = hearing →
        ∃ rets, Feeds fresh (hearing.after (service, event)).chunks rets
          (hearing.after (service, event)).handed (service.exec event).decoder :=
    fun event same unheard => ⟨rets, by rwa [same, unheard]⟩
  cases event with
  | connected superseded completion =>
      refine kept _ ?_ rfl
      rcases completion with _ | code | noDelay
      · rfl
      · exact (steady_handleConnect _).decoder
      · rw [InputService.exec, connnectHandle]
        split
        · split <;> exact (steady_handleConnect 0).decoder
        · rfl
  | refused superseded => exact kept _ rfl rfl
  | read superseded completion =>
      rcases completion with _ | code | received
      · exact kept _ rfl rfl
      · exact kept _ steady_handleError.decoder rfl
      · obtain ⟨-, decodes⟩ := possible.2.2 received rfl
        have same : (service.exec (.read superseded (.done received))).decoder =
            received.decoded.decoder :=
          steady_asyncRead.decoder.trans (steady_foldl_handlemessage _).decoder
        exact ⟨_, same ▸ feeds.concat decodes⟩
  | write superseded writing completion =>
      exact kept _ (steady_writeHandle completion).decoder rfl
  | expires timerID => exact kept _ rfl rfl
  | timer timerID aborted resolution now =>
      cases aborted with
      | true => cases timerID <;> exact kept _ rfl rfl
      | false =>
          cases timerID with
          | reconnect =>
              have same : (service.exec (.timer .reconnect false resolution now)).decoder = fresh :=
                (steady_connect resolution).decoder
              exact ⟨[], same ▸ .nil fresh⟩
          | heartbeat => exact kept _ (steady_heartbeat resolution now).decoder rfl
  | close =>
      refine kept _ ?_ rfl
      rw [InputService.exec]
      split <;> rfl

theorem Run.feeds (run : Run steps service) :
    ∃ rets, Feeds fresh (hearing steps).chunks rets (hearing steps).handed service.decoder := by
  induction run with
  | nil started =>
      obtain ⟨resolution, rfl⟩ := started
      exact ⟨[], (steady_connect resolution).decoder.symm ▸ .nil fresh⟩
  | step _ event enabled ih =>
      obtain ⟨rets, feeds⟩ := ih
      rw [hearing_concat]
      exact hearing_exec enabled feeds

theorem Run.room (run : Run steps service) :
    ∀ chunk ∈ (hearing steps).chunks, chunk.bytes.length ≤ maxBufferSize := by
  induction run with
  | nil _ => nofun
  | step _ event enabled ih =>
      rw [hearing_concat]
      obtain ⟨-, possible⟩ := enabled
      unfold Hearing.after
      split
      · rename_i received same
        obtain ⟨-, rfl⟩ := Prod.mk.inj same
        intro chunk member
        rcases List.mem_append.mp member with earlier | last
        · exact ih chunk earlier
        · obtain rfl := List.mem_singleton.mp last
          exact (possible.2.2 received rfl).1
      · nofun
      · exact ih

/-! ## What is said and taken down -/

/-- What the service says to its peer, and what it takes down of the conversation. -/
inductive Talk where
  /-- Bytes are handed to `async_write`. -/
  | sends (content : List UInt8)
  /-- A logon was received. -/
  | logon
  /-- A read or write error was handled, or a logout received. -/
  | ended

/-- What an effect is in the conversation. -/
def talkOf : Effect → Option Talk
  | .sent writing => some (.sends writing.content)
  | .logon => some .logon
  | .ended => some .ended
  | .touched _ | .written _ | .timerSet .. | .heartbeat => none

/-- The conversation so far. -/
def talk (service : InputService) : List Talk := service.history.filterMap talkOf

/-- What is said, if anything. -/
def Talk.contents : Talk → List (List UInt8)
  | .sends content => [content]
  | .logon | .ended => []

/-- What is taken down of a message. -/
def noted (content : List UInt8) : List Talk :=
  match (getUint32 content).toNat with
  | 1 => [.logon]
  | 2 => [.ended]
  | _ => []

/-- What is said and taken down at an event. -/
def said : InputService × Event → List Talk
  | (service, .connected _ (.done noDelay)) =>
      if service.socket.input ∧ noDelay then [.sends logonMsg.frame.bytes] else []
  | (_, .read _ (.failed _)) => [.ended]
  | (_, .read _ (.done received)) => received.decoded.handed.flatMap noted
  | (_, .write _ _ (.failed _)) => [.ended]
  | (service, .timer .heartbeat false _ now) =>
      if service.socket.input ∧ service.silent now then [.sends heartBeat.frame.bytes] else []
  | _ => []

/-- As nothing waits in the encoder, nothing does in the end, and this is what was said. -/
def Talks (added : List Talk) (service next : InputService) : Prop :=
  service.encoder.waiting = [] →
    next.encoder.waiting = [] ∧ next.talk = service.talk ++ added

variable {first second : List Talk}

theorem Talks.trans (earlier : Talks first service next) (later : Talks second next last) :
    Talks (first ++ second) service last := by
  intro none
  obtain ⟨still, talk⟩ := earlier none
  obtain ⟨ends, talk'⟩ := later still
  exact ⟨ends, by rw [talk', talk, List.append_assoc]⟩

theorem Talks.refl (service : InputService) : Talks [] service service :=
  fun none => ⟨none, (List.append_nil _).symm⟩

theorem Talks.after (later : Talks second next last) (earlier : Talks [] service next) :
    Talks second service last := earlier.trans later

theorem Talks.before (earlier : Talks first service next) (later : Talks [] next last) :
    Talks first service last := by
  have both := earlier.trans later
  rwa [List.append_nil] at both

theorem talks_record (effect : Effect) :
    Talks (talkOf effect).toList service (service.record effect) := by
  intro none
  refine ⟨none, ?_⟩
  rw [talk, record, List.filterMap_append]
  cases effect <;> rfl

theorem talks_onTimer (timerID : TimerID) (change : Timer → Timer) :
    Talks [] service (service.onTimer timerID change) := Talks.refl service

theorem talks_setTimer (timerID : TimerID) (milli : Int) :
    Talks [] service (service.setTimer timerID milli) := by
  rw [setTimer_eq]
  exact (talks_record (.timerSet timerID milli)).after (talks_onTimer timerID _)

theorem talks_cancelTimer (timerID : TimerID) :
    Talks [] service (service.cancelTimer timerID) := by
  intro none
  rw [talk, history_cancelTimer]
  rw [cancelTimer]
  split <;> exact ⟨none, (List.append_nil _).symm⟩

theorem talks_asyncRead : Talks [] service service.asyncRead := by
  rw [asyncRead]
  split <;> exact Talks.refl service

/-- A message that is encoded and handed over is said as its frame. -/
theorem talks_send (message : SessionMessage) :
    Talks (if service.socket.input then [.sends message.frame.bytes] else []) service
      (service.encode message).doWrite := by
  intro none
  have waiting : (service.encoder.encode message.packed message.type).waiting =
      message.frame.bytes := by
    rw [SzBinaryEncoder.waiting_encode, none, SzBinaryEncoder.encoded_nil]
  have run : (service.encoder.encode message.packed message.type).flush.run =
      message.frame.bytes := by
    have short := message.frame.length_lt
    rw [SzBinaryEncoder.Flushed.run, SzBinaryEncoder.flush]
    simp only [waiting]
    rw [toInt32_natCast short, Int.toNat_natCast, List.take_length]
  rw [doWrite, asyncWrite]
  split
  · rename_i input
    refine ⟨SzBinaryEncoder.waiting_flush _, ?_⟩
    have open_ : service.socket.input = true := input
    simp only [talk, record, encode, List.filterMap_append, run, open_, if_true]
    simp [talkOf, List.filterMap_cons]
  · rename_i input
    refine ⟨SzBinaryEncoder.waiting_flush _, ?_⟩
    have closed : ¬service.socket.input = true := input
    simp only [talk, record, encode, List.filterMap_append, if_neg closed]
    simp [talkOf]

theorem talks_handleConnect_error (service : InputService) {errorcode : Int}
    (error : errorcode ≠ 0) : Talks [] service (service.handleConnect errorcode) := by
  rw [handleConnect, if_neg error]
  exact talks_setTimer .reconnect 3000

theorem talks_handleConnect_zero (service : InputService) :
    Talks (if service.socket.input then [.sends logonMsg.frame.bytes] else []) service
      (service.handleConnect 0) := by
  rw [handleConnect, if_pos rfl]
  exact (talks_send logonMsg).before talks_asyncRead

theorem talks_handleError : Talks [.ended] service service.handleError :=
  (talks_record .ended).before
    ((talks_setTimer .reconnect 3000).after (talks_cancelTimer .heartbeat))

theorem talks_handlemessage (content : List UInt8) :
    Talks (noted content) service (service.handlemessage content) := by
  rw [handlemessage, noted]
  generalize (getUint32 content).toNat = type
  rcases type with _ | _ | _ | type
  · exact Talks.refl service
  · exact (talks_record .logon).before (talks_setTimer .heartbeat 3000)
  · exact talks_handleError
  · exact Talks.refl service

theorem talks_foldl_handlemessage (handed : List (List UInt8)) :
    Talks (handed.flatMap noted) service (handed.foldl handlemessage service) := by
  induction handed generalizing service with
  | nil => exact Talks.refl service
  | cons content handed ih => exact (talks_handlemessage content).trans ih

theorem talks_connect (resolution : Resolution) :
    Talks [] service (service.connect resolution) := by
  rw [connect.eq_def]
  split
  · cases resolution with
    | found => exact Talks.refl service
    | failed code => exact talks_handleConnect_error service code.property
  · exact talks_handleConnect_error service (by decide)

theorem talks_sendHeartBeat :
    Talks (if service.socket.input then [.sends heartBeat.frame.bytes] else []) service
      service.sendHeartBeat :=
  (talks_send heartBeat).after (talks_record .heartbeat)

theorem talks_reconnect (resolution : Resolution) (now : Int) :
    Talks [] service (service.handleTimer .reconnect resolution now) := by
  refine (talks_connect resolution).after fun _ => ⟨SzBinaryEncoder.waiting_fresh, ?_⟩
  simp [talk, resetEncoder, record, talkOf, List.filterMap_cons]

theorem talks_heartbeat (resolution : Resolution) (now : Int) :
    Talks (if service.socket.input ∧ service.silent now then [.sends heartBeat.frame.bytes] else [])
      service (service.handleTimer .heartbeat resolution now) := by
  rw [handleTimer]
  by_cases silent : service.silent now = true
  · simp only [silent, if_true, and_true]
    exact talks_sendHeartBeat.after (talks_setTimer .heartbeat 3000)
  · simp only [silent, and_false, if_false, Bool.false_eq_true]
    exact talks_setTimer .heartbeat 3000

theorem talks_exec (event : Event) :
    Talks (said (service, event)) service (service.exec event) := by
  cases event with
  | connected superseded completion =>
      have completed : Talks [] service
          { service with socket.connects := service.socket.connects.complete superseded () } :=
        Talks.refl service
      rcases completion with _ | code | noDelay
      · exact completed
      · exact Talks.after (talks_handleConnect_error _ code.property) completed
      · rw [InputService.exec, connnectHandle, said]
        by_cases input : service.socket.input = true
        · cases noDelay with
          | true =>
              have told := Talks.after (talks_handleConnect_zero _) completed
              simpa [input] using told
          | false =>
              have closed : Talks [] service
                  { service with
                    socket :=
                      { { service.socket with
                          connects := service.socket.connects.complete superseded () }.close with
                        input := false } } := Talks.refl service
              have told := Talks.after (talks_handleConnect_zero _) closed
              simpa [input] using told
        · have undefined : Talks [] service
              { service with
                socket.connects := service.socket.connects.complete superseded ()
                undefined := true } := Talks.refl service
          simpa [input] using undefined
  | refused superseded => exact Talks.refl service
  | read superseded completion =>
      have completed : Talks [] service
          { service with socket.reads := service.socket.reads.complete superseded () } :=
        Talks.refl service
      rcases completion with _ | code | received
      · exact completed
      · exact Talks.after talks_handleError completed
      · have taken : Talks [] service
            { service with
              socket.reads := service.socket.reads.complete superseded ()
              lastReceiveTime := received.now
              decoder := received.decoded.decoder } := Talks.refl service
        exact Talks.after
          ((talks_foldl_handlemessage received.decoded.handed).before talks_asyncRead) taken
  | write superseded writing completion =>
      have put : Talks [] service
          ({ service with
            socket.writes := service.socket.writes.complete superseded writing }.record
              (.written writing)) := talks_record _
      rcases completion with _ | code | result
      · exact put
      · exact Talks.after talks_handleError put
      · exact put
  | expires timerID => exact talks_onTimer timerID _
  | timer timerID aborted resolution now =>
      have handled : Talks [] service (service.onTimer timerID (Timer.handled · aborted)) :=
        talks_onTimer timerID _
      cases aborted with
      | true => cases timerID <;> exact handled
      | false =>
          cases timerID with
          | reconnect => exact Talks.after (talks_reconnect resolution now) handled
          | heartbeat => exact Talks.after (talks_heartbeat resolution now) handled
  | close =>
      rw [InputService.exec]
      split <;> exact Talks.refl service

theorem Run.talks (run : Run steps service) :
    service.encoder.waiting = [] ∧ service.talk = steps.flatMap said := by
  induction run with
  | nil started =>
      obtain ⟨resolution, rfl⟩ := started
      exact talks_connect resolution SzBinaryEncoder.waiting_fresh
  | step _ event _ ih =>
      obtain ⟨none, talk⟩ := ih
      obtain ⟨still, talk'⟩ := talks_exec event none
      refine ⟨still, ?_⟩
      rw [talk', talk, List.flatMap_append, List.flatMap_singleton]

theorem contents_said (step : InputService × Event) : ∀ content ∈ (said step).flatMap Talk.contents,
    ∃ frame : Frame, frame.Genuine ∧ content = frame.bytes := by
  have spoken : ∀ (spoken : Prop) [Decidable spoken] (message : SessionMessage), ∀ content ∈
      (if spoken then [Talk.sends message.frame.bytes] else []).flatMap Talk.contents,
        ∃ frame : Frame, frame.Genuine ∧ content = frame.bytes := by
    intro spoken _ message content member
    split at member
    · obtain rfl : content = message.frame.bytes := by simpa [Talk.contents] using member
      exact ⟨message.frame, message.genuine_frame, rfl⟩
    · simp at member
  have silent : ∀ handed : List (List UInt8),
      (handed.flatMap noted).flatMap Talk.contents = [] := by
    intro handed
    rw [List.flatMap_assoc, List.flatMap_eq_nil_iff]
    intro content _
    rw [noted]
    split <;> rfl
  unfold said
  split
  · exact spoken _ logonMsg
  · nofun
  · rw [silent]
    nofun
  · nofun
  · exact spoken _ heartBeat
  · nofun

theorem exists_frames {contents : List (List UInt8)}
    (each : ∀ content ∈ contents, ∃ frame : Frame, frame.Genuine ∧ content = frame.bytes) :
    ∃ frames : List Frame, contents = frames.map Frame.bytes ∧ ∀ frame ∈ frames, frame.Genuine := by
  induction contents with
  | nil => exact ⟨[], rfl, nofun⟩
  | cons content contents ih =>
      obtain ⟨⟨frame, genuine, rfl⟩, rest⟩ := List.forall_mem_cons.mp each
      obtain ⟨frames, rfl, all⟩ := ih rest
      exact ⟨frame :: frames, rfl, List.forall_mem_cons.mpr ⟨genuine, all⟩⟩

/-! ## One operation at a time -/

/-- The connects and the reads that nothing has superseded. -/
def busy (service : InputService) : Nat :=
  service.socket.connects.pending.length + service.socket.reads.pending.length

/-- How often a connect or a read that was superseded has come to a good end, since everything was
last superseded. -/
def staleAfter (stale : Nat) : InputService × Event → Nat
  | (_, .connected true (.done _)) => stale + 1
  | (_, .read true (.done _)) => stale + 1
  | (_, .refused _) => 0
  | (service, .timer .reconnect false .found _) => if service.socket.input then 0 else stale
  | (service, .close) => if service.socket.input then 0 else stale
  | _ => stale

@[simp] theorem busy_record (effect : Effect) : (service.record effect).busy = service.busy := rfl

@[simp] theorem busy_onTimer (timerID : TimerID) (change : Timer → Timer) :
    (service.onTimer timerID change).busy = service.busy := rfl

@[simp] theorem busy_setTimer (timerID : TimerID) (milli : Int) :
    (service.setTimer timerID milli).busy = service.busy := rfl

@[simp] theorem busy_cancelTimer (timerID : TimerID) :
    (service.cancelTimer timerID).busy = service.busy := by
  rw [cancelTimer]
  split <;> rfl

@[simp] theorem busy_encode (message : SessionMessage) :
    (service.encode message).busy = service.busy := rfl

@[simp] theorem busy_resetEncoder : service.resetEncoder.busy = service.busy := rfl

@[simp] theorem busy_doWrite : service.doWrite.busy = service.busy := by
  rw [doWrite, asyncWrite]
  split <;> rfl

@[simp] theorem busy_handleError : service.handleError.busy = service.busy := by
  simp [handleError]

@[simp] theorem busy_handlemessage (content : List UInt8) :
    (service.handlemessage content).busy = service.busy := by
  rw [handlemessage]
  split <;> simp

@[simp] theorem busy_foldl_handlemessage (handed : List (List UInt8)) :
    (handed.foldl handlemessage service).busy = service.busy := by
  induction handed generalizing service with
  | nil => rfl
  | cons content handed ih => rw [List.foldl_cons, ih, busy_handlemessage]

@[simp] theorem busy_sendHeartBeat : service.sendHeartBeat.busy = service.busy := by
  simp [sendHeartBeat]

theorem busy_doRead : service.doRead.busy ≤ service.busy + 1 := by
  rw [doRead, asyncRead]
  split
  · simp only [busy, Operations.start, List.length_append, List.length_singleton]
    omega
  · exact Nat.le_succ _

theorem busy_handleConnect_zero (service : InputService) :
    (service.handleConnect 0).busy ≤ service.busy + 1 := by
  rw [handleConnect, if_pos rfl, sendLogon]
  exact busy_doRead.trans (by simp)

theorem busy_handleConnect_error (service : InputService) {errorcode : Int}
    (error : errorcode ≠ 0) :
    (service.handleConnect errorcode).busy = service.busy := by
  rw [handleConnect, if_neg error, busy_setTimer]

theorem length_complete {operations : Operations Unit} {superseded : Bool}
    (started : () ∈ operations.those superseded) :
    (operations.complete superseded ()).pending.length =
      operations.pending.length - if superseded then 0 else 1 := by
  cases superseded with
  | true => rfl
  | false => exact List.length_erase_of_mem started

theorem busy_completed_connect {superseded : Bool}
    (started : () ∈ service.socket.connects.those superseded) :
    ({ service with
      socket.connects := service.socket.connects.complete superseded () } : InputService).busy +
        (if superseded then 0 else 1) = service.busy := by
  have length := length_complete started
  have positive : superseded = false → 0 < service.socket.connects.pending.length := by
    rintro rfl
    exact List.length_pos_of_mem started
  cases superseded <;> simp_all [busy]
  omega

theorem busy_completed_read {superseded : Bool}
    (started : () ∈ service.socket.reads.those superseded) :
    ({ service with
      socket.reads := service.socket.reads.complete superseded () } : InputService).busy +
        (if superseded then 0 else 1) = service.busy := by
  have length := length_complete started
  have positive : superseded = false → 0 < service.socket.reads.pending.length := by
    rintro rfl
    exact List.length_pos_of_mem started
  cases superseded <;> simp_all [busy]
  omega

/-- Where one operation is completed, one more may be started. -/
theorem le_of_completed {superseded : Bool} {before completed after stale : Nat}
    (fewer : completed + (if superseded then 0 else 1) = before) (few : before ≤ 1 + stale)
    (more : after ≤ completed + 1) : after ≤ 1 + if superseded then stale + 1 else stale := by
  cases superseded <;> simp at fewer ⊢ <;> omega

/-- A connect is started on a socket that was closed. -/
theorem busy_connect_found {stale : Nat} (few : service.busy ≤ 1 + stale) :
    (service.connect .found).busy ≤ 1 + if service.socket.input then 0 else stale := by
  rw [connect.eq_def]
  by_cases input : service.socket.input = true
  · simp only [input, if_true]
    exact Nat.le_refl 1
  · simp only [input, if_false, Bool.false_eq_true]
    exact (busy_handleConnect_error service (by decide)).trans_le few

theorem busy_connect_failed (service : InputService) (code : ErrorCode) :
    (service.connect (.failed code)).busy = service.busy := by
  rw [connect.eq_def]
  split
  · exact busy_handleConnect_error service code.property
  · exact busy_handleConnect_error service (by decide)

theorem handleTimer_reconnect (service : InputService) (resolution : Resolution) (now : Int) :
    ∃ reset : InputService, reset.busy = service.busy ∧
      reset.socket.input = service.socket.input ∧
      service.handleTimer .reconnect resolution now = reset.connect resolution := by
  have same : (service.cancelTimer .reconnect).busy = service.busy := busy_cancelTimer _
  have input : (service.cancelTimer .reconnect).socket.input = service.socket.input :=
    (steady_cancelTimer _).input
  rw [handleTimer]
  generalize service.cancelTimer .reconnect = cancelled at *
  exact ⟨{ cancelled.resetEncoder with decoder := cancelled.resetEncoder.decoder.reset }, same,
    input, rfl⟩

/-- An event starts one operation at most for each that comes to a good end. -/
theorem busy_exec {event : Event} (enabled : service.Enabled event) {stale : Nat}
    (few : service.busy ≤ 1 + stale) :
    (service.exec event).busy ≤ 1 + staleAfter stale (service, event) := by
  obtain ⟨-, possible⟩ := enabled
  cases event with
  | connected superseded completion =>
      have fewer := busy_completed_connect possible.1
      rcases completion with _ | code | noDelay
      · obtain rfl : superseded = true := possible.2
        exact fewer.trans_le few
      · have less := (busy_handleConnect_error
          { service with socket.connects := service.socket.connects.complete superseded () }
          code.property).trans_le ((Nat.le.intro fewer).trans few)
        cases superseded <;> exact less
      · have counted : staleAfter stale (service, .connected superseded (.done noDelay)) =
            if superseded then stale + 1 else stale := by cases superseded <;> rfl
        rw [counted, InputService.exec, connnectHandle]
        refine le_of_completed fewer few ?_
        split
        · split
          · exact busy_handleConnect_zero _
          · exact (busy_handleConnect_zero _).trans (Nat.succ_le_succ (Nat.zero_le _))
        · exact Nat.le_succ _
  | refused superseded => exact Nat.le_refl 1
  | read superseded completion =>
      have fewer := busy_completed_read possible.1
      rcases completion with _ | code | received
      · obtain rfl : superseded = true := possible.2.1
        exact fewer.trans_le few
      · have less := busy_handleError.trans_le ((Nat.le.intro fewer).trans few)
        cases superseded <;> exact less
      · have counted : staleAfter stale (service, .read superseded (.done received)) =
            if superseded then stale + 1 else stale := by cases superseded <;> rfl
        rw [counted]
        refine le_of_completed fewer few ?_
        exact busy_doRead.trans (Nat.succ_le_succ (busy_foldl_handlemessage _).le)
  | write superseded writing completion =>
      rcases completion with _ | code | result
      · exact few
      · exact busy_handleError.trans_le few
      · exact few
  | expires timerID => exact few
  | timer timerID aborted resolution now =>
      cases aborted with
      | true => cases timerID <;> exact few
      | false =>
          cases timerID with
          | reconnect =>
              obtain ⟨reset, same, input, connects⟩ := handleTimer_reconnect
                (service.onTimer .reconnect (Timer.handled · false)) resolution now
              rw [busy_onTimer] at same
              rw [InputService.exec, timerHandle, if_neg Bool.false_ne_true, connects]
              cases resolution with
              | found =>
                  rw [staleAfter, show service.socket.input = reset.socket.input from input.symm]
                  exact busy_connect_found (same.trans_le few)
              | failed code => exact (busy_connect_failed reset code).trans_le (same.trans_le few)
          | heartbeat =>
              rw [InputService.exec, timerHandle, if_neg Bool.false_ne_true, handleTimer]
              split
              · rw [busy_sendHeartBeat]
                exact few
              · exact few
  | close =>
      rw [InputService.exec, staleAfter]
      split
      · exact Nat.zero_le _
      · exact few

/-! ## Results -/

/-- What is handled since the service last reconnected are genuine frames that lie one behind the
other in what was read; and if frames were sent, with the last unfinished, it is those frames. -/
theorem hears_frames (run : Run steps service) :
    Extracted (joined (hearing steps).chunks) (hearing steps).handed ∧
      ∀ (frames : List Frame) (unfinished : Frame) (kept : Nat), (∀ frame ∈ frames, frame.Genuine) →
        kept < unfinished.bytes.length →
        joined (hearing steps).chunks = stream frames ++ unfinished.bytes.take kept →
          (hearing steps).handed = frames.map Frame.bytes ∧
            service.decoder.decodeBuffer = unfinished.bytes.take kept := by
  obtain ⟨rets, feeds⟩ := run.feeds
  refine ⟨?_, fun frames unfinished kept genuine proper cut => ?_⟩
  · have settled := feeds.settled (settled_fresh ⟨Excerpts.nil [], by simp⟩)
    exact settled.extracted
  · obtain ⟨first, head⟩ : ∃ first, (frames ++ [unfinished]).head? = some first := by
      cases frames <;> simp
    have small : ∀ chunk ∈ (hearing steps).chunks, chunk.bytes.length < 2147483648 :=
      fun chunk member => (run.room chunk member).trans_lt (by decide)
    have framed := feeds_genuine 0 kept small genuine head
      (by have := first.length_bytes; omega) proper (by simpa using cut)
    obtain ⟨-, handed, decoder⟩ := feeds.unique framed
    exact ⟨handed, by rw [decoder, decodeBuffer_resting]⟩

theorem hears_frames_loggedOn :
    (hearing ((run .found).trail loggedOn)).handed = [logonFrame].map Frame.bytes := by
  have heard := (hears_frames run_loggedOn).2 [logonFrame] logonFrame 0 (by decide) (by decide)
    (by decide)
  exact heard.1

/-- The service says a logon whenever it has connected, and a heartbeat whenever one is due; it
takes down a logon or an end for each such message and each error, and nothing else, whatever the
buffers of the encoder are at.  Whatever part of what it says is cut into chunks anyhow, a decoder
makes the messages of it again. -/
theorem conversation (run : Run steps service) :
    service.talk = steps.flatMap said ∧
      ∀ part, part <:+: service.talk → ∀ chunks,
        joined chunks = (part.flatMap Talk.contents).flatten →
        (∀ chunk ∈ chunks, chunk.bytes.length < 2147483648) →
          Feeds fresh chunks (List.replicate chunks.length 0) (part.flatMap Talk.contents)
            fresh := by
  obtain ⟨-, talk⟩ := run.talks
  refine ⟨talk, fun part inside chunks cut small => ?_⟩
  have each : ∀ content ∈ part.flatMap Talk.contents,
      ∃ frame : Frame, frame.Genuine ∧ content = frame.bytes := by
    intro content member
    obtain ⟨word, among, spoken⟩ := List.mem_flatMap.mp member
    have said_ := inside.subset among
    rw [talk] at said_
    obtain ⟨step, -, here⟩ := List.mem_flatMap.mp said_
    exact contents_said step content (List.mem_flatMap.mpr ⟨word, here, spoken⟩)
  obtain ⟨frames, told, genuine⟩ := exists_frames each
  rw [told] at cut ⊢
  exact feeds_whole genuine small (cut.trans (List.flatMap_def ..).symm)

theorem conversation_loggedOn : ∃ service, Run ((run .found).trail loggedOn) service ∧
    service.talk = [.sends logonMsg.frame.bytes, .logon] ∧
      Feeds fresh [⟨logonMsg.frame.bytes.take 5, fun _ => 0⟩,
          ⟨logonMsg.frame.bytes.drop 5, fun _ => 0⟩]
        [0, 0] [logonMsg.frame.bytes] fresh := by
  obtain ⟨talk, decoded⟩ := conversation run_loggedOn
  have said_ := talk.trans (show _ = [.sends logonMsg.frame.bytes, .logon] from rfl)
  refine ⟨_, run_loggedOn, said_, ?_⟩
  have feeds := decoded _ (List.infix_refl _) [⟨logonMsg.frame.bytes.take 5, fun _ => 0⟩,
    ⟨logonMsg.frame.bytes.drop 5, fun _ => 0⟩]
  rw [said_] at feeds
  exact feeds (by simp [joined, Talk.contents]) (by decide)

/-- The service waits for one connect or one read at a time, and for one more for each that comes to
a good end although it was superseded. -/
theorem one_at_a_time (run : Run steps service) :
    service.socket.connects.pending.length + service.socket.reads.pending.length ≤
      1 + steps.foldl staleAfter 0 := by
  induction run with
  | nil started =>
      obtain ⟨resolution, rfl⟩ := started
      cases resolution with
      | found => exact Nat.le_refl 1
      | failed code => exact (busy_connect_failed init code).le.trans (Nat.zero_le 1)
  | step _ event enabled ih =>
      rw [List.foldl_append]
      exact busy_exec enabled ih

/-- A frame that logs the service out. -/
def logoutFrame : Frame := { heartbeatFrame with msgType := 2, checksum := 2 }

/-- The gateway logs the service out, and the last read on the old connection ends well after the
service has begun to connect again: two reads fill the one buffer. -/
theorem two_reads_on_one_buffer : ∃ steps service, Run steps service ∧
    service.socket.reads.pending = [(), ()] ∧ steps.foldl staleAfter 0 = 1 := by
  have room : ∀ frame : Frame, frame.body = [] →
      (⟨frame.bytes, fun _ => 0⟩ : Chunk).bytes.length ≤ maxBufferSize := by
    intro frame empty
    simp [empty, maxBufferSize]
  have loggedOut : Decodes fresh ⟨logoutFrame.bytes, fun _ => 0⟩
      ⟨0, fresh, [logoutFrame.bytes]⟩ := ⟨5, by decide⟩
  have heard : Decodes fresh ⟨logonFrame.bytes, fun _ => 0⟩ ⟨0, fresh, [logonFrame.bytes]⟩ :=
    ⟨5, by decide⟩
  have logout := run_loggedOn.step
    (.read false (.done ⟨⟨logoutFrame.bytes, fun _ => 0⟩, ⟨0, fresh, [logoutFrame.bytes]⟩, 0⟩))
    ⟨rfl, by decide, trivial, by rintro _ ⟨⟩; exact ⟨room _ rfl, loggedOut⟩⟩
  have expired := logout.step (.expires .reconnect) ⟨rfl, by decide⟩
  have connecting := expired.step (.timer .reconnect false .found 0) ⟨rfl, by decide⟩
  have stale := connecting.step
    (.read true (.done ⟨⟨logonFrame.bytes, fun _ => 0⟩, ⟨0, fresh, [logonFrame.bytes]⟩, 0⟩))
    ⟨rfl, by decide, trivial, by rintro _ ⟨⟩; exact ⟨room _ rfl, heard⟩⟩
  have connected := stale.step (.connected false (.done true)) ⟨rfl, by decide, trivial⟩
  exact ⟨_, _, connected, rfl, rfl⟩

theorem one_at_a_time_loggedOn : ∃ service, Run ((run .found).trail loggedOn) service ∧
    service.socket.connects.pending.length + service.socket.reads.pending.length ≤ 1 :=
  ⟨_, run_loggedOn, one_at_a_time run_loggedOn⟩

end InputService

end FlashForwarder
