import FlashForwarder.Service.InputService

/-!
# Buffers that are being sent

`doWrite` hands the waiting buffer to `async_write` and clears the other one, and nothing waits for
the handler of the write.  A second `doWrite`, or a reset, before that handler has run reaches into
the buffer that is still being sent.
-/

namespace FlashForwarder

open Asynchronous Transition

/-- The writes whose handlers have not been called, after one more effect. -/
def sendingAfter (sending : List Writing) : Effect → List Writing
  | .sent writing => writing :: sending
  | .written writing => sending.erase writing
  | _ => sending

/-- A buffer that is being sent is not touched, and no write is started beside another one. -/
def Effect.Permitted (sending : List Writing) : Effect → Prop
  | .touched side => ∀ writing ∈ sending, writing.side ≠ side
  | .sent _ => sending = []
  | _ => True

/-- From the start of a write until its handler is called, with its result or as aborted, its buffer
is neither cleared nor appended to, and no other write is started. -/
def BuffersKept (history : List Effect) : Prop :=
  Throughout Effect.Permitted sendingAfter [] history

namespace SzBinaryEncoder

variable (encoder : SzBinaryEncoder)

@[simp] theorem waitBufferPtr_encode (content : List UInt8) (type : MsgType) :
    (encoder.encode content type).waitBufferPtr = encoder.waitBufferPtr := by
  obtain ⟨buffer0, buffer1, write, wait⟩ := encoder
  cases wait <;> rfl

@[simp] theorem writeBufferPtr_encode (content : List UInt8) (type : MsgType) :
    (encoder.encode content type).writeBufferPtr = encoder.writeBufferPtr := by
  obtain ⟨buffer0, buffer1, write, wait⟩ := encoder
  cases wait <;> rfl

/-- The bytes that are handed out stay where they are. -/
theorem buffer_flush {encoder : SzBinaryEncoder}
    (apart : encoder.waitBufferPtr ≠ encoder.writeBufferPtr) :
    encoder.flush.encoder.buffer encoder.waitBufferPtr = encoder.waiting := by
  obtain ⟨buffer0, buffer1, write, wait⟩ := encoder
  cases wait <;> cases write <;> first | rfl | exact absurd rfl apart

/-- The bytes that are handed out are those that waited, as far as their number fits an `int`. -/
theorem run_flush_prefix : encoder.flush.run <+: encoder.waiting := List.take_prefix _ _

end SzBinaryEncoder

theorem Side.eq_or_eq {wait write : Side} (apart : wait ≠ write) (side : Side) :
    side = wait ∨ side = write := by
  cases side <;> cases wait <;> cases write <;> simp at apart ⊢

namespace InputService

/-- The writes whose handlers have not been called. -/
def sending (service : InputService) : List Writing := service.history.foldl sendingAfter []

variable {service next last : InputService}

theorem sending_record (effect : Effect) :
    (service.record effect).sending = sendingAfter service.sending effect := by
  simp [sending, record]

theorem kept_record (effect : Effect) :
    BuffersKept (service.record effect).history ↔
      BuffersKept service.history ∧ effect.Permitted service.sending :=
  throughout_concat

/-- The record agrees with the socket about which writes are outstanding, and the encoder's two
pointers differ. -/
structure Accounted (service : InputService) : Prop where
  writes : service.sending.Perm service.socket.writes.outstanding
  apart : service.encoder.waitBufferPtr ≠ service.encoder.writeBufferPtr

/-! ## What has nothing to do with writing -/

/-- What lies between the two touches no buffer and starts no write. -/
structure Apart (service next : InputService) : Prop where
  sending : next.sending = service.sending
  kept : BuffersKept next.history ↔ BuffersKept service.history
  writes : next.socket.writes.outstanding.Perm service.socket.writes.outstanding
  encoder : next.encoder = service.encoder

theorem Apart.refl (service : InputService) : service.Apart service := ⟨rfl, Iff.rfl, .rfl, rfl⟩

theorem Apart.trans (first : service.Apart next) (second : next.Apart last) :
    service.Apart last where
  sending := second.sending.trans first.sending
  kept := second.kept.trans first.kept
  writes := second.writes.trans first.writes
  encoder := second.encoder.trans first.encoder

theorem Accounted.along (accounted : service.Accounted) (apart : service.Apart next) :
    next.Accounted where
  writes := by
    rw [apart.sending]
    exact accounted.writes.trans apart.writes.symm
  apart := by
    rw [apart.encoder]
    exact accounted.apart

theorem apart_record {effect : Effect} (same : ∀ sending, sendingAfter sending effect = sending)
    (permitted : ∀ sending, effect.Permitted sending) : service.Apart (service.record effect) where
  sending := by rw [sending_record, same]
  kept := by simp [kept_record, permitted]
  writes := .rfl
  encoder := rfl

theorem apart_onTimer (timerID : TimerID) (change : Timer → Timer) :
    service.Apart (service.onTimer timerID change) := ⟨rfl, Iff.rfl, .rfl, rfl⟩

theorem apart_setTimer (timerID : TimerID) (milli : Int) :
    service.Apart (service.setTimer timerID milli) := by
  rw [setTimer_eq]
  exact (apart_onTimer timerID _).trans (apart_record (fun _ => rfl) fun _ => trivial)

theorem apart_cancelTimer (timerID : TimerID) : service.Apart (service.cancelTimer timerID) := by
  rw [cancelTimer]
  split <;> exact ⟨rfl, Iff.rfl, .rfl, rfl⟩

theorem apart_asyncRead : service.Apart service.asyncRead := by
  rw [asyncRead]
  split <;> exact ⟨rfl, Iff.rfl, .rfl, rfl⟩

theorem apart_handleError : service.Apart service.handleError := by
  have ended : service.Apart (service.record .ended) :=
    apart_record (fun _ => rfl) fun _ => trivial
  exact (ended.trans (apart_cancelTimer _)).trans (apart_setTimer _ _)

theorem apart_handlemessage (content : List UInt8) :
    service.Apart (service.handlemessage content) := by
  rw [handlemessage]
  split
  · have begun : service.Apart (service.record .logon) :=
      apart_record (fun _ => rfl) fun _ => trivial
    exact begun.trans (apart_setTimer _ _)
  · exact apart_handleError
  · exact .refl service

theorem apart_foldl_handlemessage (handed : List (List UInt8)) :
    service.Apart (handed.foldl handlemessage service) := by
  induction handed generalizing service with
  | nil => exact .refl service
  | cons content handed ih => exact (apart_handlemessage content).trans ih

theorem apart_readHandle (completion : Completion Received) :
    service.Apart (service.readHandle completion) := by
  cases completion with
  | aborted => exact .refl service
  | failed code => exact apart_handleError
  | done received =>
      have taken : service.Apart
          { service with lastReceiveTime := received.now, decoder := received.decoded.decoder } :=
        ⟨rfl, Iff.rfl, .rfl, rfl⟩
      exact (taken.trans (apart_foldl_handlemessage _)).trans apart_asyncRead

theorem apart_writeHandle (completion : Completion Unit) :
    service.Apart (service.writeHandle completion) := by
  cases completion with
  | aborted => exact .refl service
  | failed code => exact apart_handleError
  | done result => exact .refl service

theorem apart_handleConnect {errorcode : Int} (failed : errorcode ≠ 0) :
    service.Apart (service.handleConnect errorcode) := by
  rw [handleConnect, if_neg failed]
  exact apart_setTimer _ _

theorem apart_connect (resolution : Resolution) : service.Apart (service.connect resolution) := by
  rw [connect.eq_def]
  split
  · cases resolution with
    | found => exact ⟨rfl, Iff.rfl, Operations.outstanding_supersede _, rfl⟩
    | failed code => exact apart_handleConnect code.property
  · exact apart_handleConnect (by decide)

/-! ## What uses the buffers -/

/-- What was handed over still lies where it lay. -/
def Intact (service : InputService) : Prop :=
  ∀ writing ∈ service.socket.writes.outstanding,
    writing.content <+: service.encoder.buffer writing.side

theorem intact_of_none (none : service.socket.writes.outstanding = []) : service.Intact := by
  intro writing member
  rw [none] at member
  exact absurd member List.not_mem_nil

theorem Intact.along (intact : service.Intact) (apart : service.Apart next) : next.Intact := by
  intro writing member
  rw [apart.encoder]
  exact intact writing (apart.writes.mem_iff.mp member)

/-- Between the two both buffers are touched: nothing may be outstanding then. -/
structure Uses (service next : InputService) : Prop where
  accounted : next.Accounted
  kept : BuffersKept next.history ↔ BuffersKept service.history ∧ service.sending = []
  intact : service.socket.writes.outstanding = [] → next.Intact

theorem Uses.after (first : service.Apart next) (second : next.Uses last) : service.Uses last where
  accounted := second.accounted
  kept := by rw [second.kept, first.kept, first.sending]
  intact := fun none => second.intact ((first.writes.trans (.of_eq none)).eq_nil)

theorem Uses.before (first : service.Uses next) (second : next.Apart last) : service.Uses last where
  accounted := first.accounted.along second
  kept := second.kept.trans first.kept
  intact := fun none => (first.intact none).along second

/-- A buffer of each side is left alone only if there is none. -/
theorem permitted_both {sending : List Writing} {wait write : Side} (apart : wait ≠ write) :
    (Effect.touched wait).Permitted sending ∧ (Effect.touched write).Permitted sending ↔
      sending = [] := by
  constructor
  · rintro ⟨left, right⟩
    rw [List.eq_nil_iff_forall_not_mem]
    intro writing member
    rcases Side.eq_or_eq apart writing.side with same | same
    · exact left writing member same
    · exact right writing member same
  · rintro rfl
    exact ⟨by simp [Effect.Permitted], by simp [Effect.Permitted]⟩

theorem uses_resetEncoder (accounted : service.Accounted) :
    service.Uses service.resetEncoder := by
  have distinct : Side.first ≠ Side.second := by decide
  refine ⟨⟨?_, distinct⟩, ?_, ?_⟩
  · rw [resetEncoder, sending_record, sending_record]
    exact accounted.writes
  · rw [resetEncoder, kept_record, kept_record, and_assoc, sending_record]
    exact and_congr_right fun _ => permitted_both accounted.apart
  · exact fun none => intact_of_none none

/-- A message is encoded and flushed. -/
def flushed (service : InputService) (message : SessionMessage) : InputService :=
  { service.encode message with encoder := (service.encode message).encoder.flush.encoder }.record
    (.touched (service.encode message).encoder.writeBufferPtr)

theorem apart_encode (accounted : service.Accounted) (message : SessionMessage) :
    (service.encode message).encoder.waitBufferPtr ≠
      (service.encode message).encoder.writeBufferPtr := by
  rw [encode, record]
  simpa using accounted.apart

theorem sending_flushed (message : SessionMessage) :
    (service.flushed message).sending = service.sending := by
  have encoded : (service.encode message).sending = service.sending := sending_record _
  exact (sending_record _).trans encoded

theorem uses_flushed (accounted : service.Accounted) (message : SessionMessage) :
    service.Uses (service.flushed message) := by
  have apart := apart_encode accounted message
  have encoded : (service.encode message).sending = service.sending := sending_record _
  have appended : BuffersKept (service.encode message).history ↔ BuffersKept service.history ∧
      (Effect.touched service.encoder.waitBufferPtr).Permitted service.sending := kept_record _
  have cleared : BuffersKept (service.flushed message).history ↔
      BuffersKept (service.encode message).history ∧
        (Effect.touched (service.encode message).encoder.writeBufferPtr).Permitted
          (service.encode message).sending := kept_record _
  have pointer : (service.encode message).encoder.waitBufferPtr = service.encoder.waitBufferPtr :=
    SzBinaryEncoder.waitBufferPtr_encode ..
  refine ⟨⟨?_, apart.symm⟩, ?_, fun none => intact_of_none none⟩
  · rw [sending_flushed]
    exact accounted.writes
  · rw [cleared, appended, and_assoc, encoded, ← pointer]
    exact and_congr_right fun _ => permitted_both apart

/-- A buffer that has just been used is handed over. -/
theorem Uses.asyncWrite (uses : service.Uses next) (still : next.sending = service.sending)
    (same : next.socket.writes = service.socket.writes) {writing : Writing}
    (lies : writing.content <+: next.encoder.buffer writing.side) :
    service.Uses (next.asyncWrite writing) := by
  obtain ⟨⟨writes, apart⟩, kept, -⟩ := uses
  rw [InputService.asyncWrite]
  split
  · refine ⟨⟨?_, apart⟩, ?_, fun none => ?_⟩
    · rw [sending_record]
      exact (writes.cons writing).trans (Operations.outstanding_start _ writing).symm
    · have started : BuffersKept next.history ∧ next.sending = [] ↔
          BuffersKept service.history ∧ service.sending = [] := by
        rw [kept, still, and_assoc, and_self]
      rw [kept_record]
      exact started
    · intro other member
      have listed := (Operations.outstanding_start next.socket.writes writing).mem_iff.mp member
      rw [same, none, List.mem_singleton] at listed
      rw [listed]
      exact lies
  · exact ⟨⟨writes, apart⟩, kept, fun none => intact_of_none (by rw [same]; exact none)⟩

theorem uses_send (accounted : service.Accounted) (message : SessionMessage) :
    service.Uses (service.encode message).doWrite := by
  have handed : (service.encode message).doWrite = (service.flushed message).asyncWrite
      ⟨(service.encode message).encoder.waitBufferPtr,
        (service.encode message).encoder.flush.run⟩ := rfl
  have same : (service.flushed message).socket.writes = service.socket.writes := by
    simp only [flushed, encode, record]
  have encoder : (service.flushed message).encoder =
      (service.encode message).encoder.flush.encoder := by
    simp only [flushed, record]
  rw [handed]
  refine (uses_flushed accounted message).asyncWrite (sending_flushed message) same ?_
  rw [encoder, SzBinaryEncoder.buffer_flush (apart_encode accounted message)]
  dsimp only
  exact (service.encode message).encoder.run_flush_prefix

/-! ## Runs -/

/-- An event whose handler encodes and sends a message, or resets the encoder. -/
def Using (service : InputService) : Event → Prop
  | .connected _ (.done _) => service.socket.input = true
  | .timer .reconnect false _ _ => True
  | .timer .heartbeat false _ now => service.silent now = true
  | _ => False

/-- When the encoder is used, no write is outstanding. -/
def NoneOutstanding (service : InputService) (event : Event) : Prop :=
  service.Using event → service.socket.writes.outstanding = []

theorem uses_connected (accounted : service.Accounted) (noDelay : Bool)
    (input : service.socket.input = true) :
    service.Uses (service.connnectHandle (.done noDelay)) := by
  have connected : ∀ next : InputService, next.Accounted → next.Uses (next.handleConnect 0) := by
    intro next accounted
    exact (uses_send accounted logonMsg).before apart_asyncRead
  rw [connnectHandle, if_pos input]
  split
  · exact connected service accounted
  · have destroyed : service.Apart
        { service with socket := { service.socket.close with input := false } } :=
      ⟨rfl, Iff.rfl, Operations.outstanding_supersede _, rfl⟩
    exact (connected _ (accounted.along destroyed)).after destroyed

theorem uses_reconnect (accounted : service.Accounted) (resolution : Resolution) (now : Int) :
    service.Uses (service.handleTimer .reconnect resolution now) := by
  have cancelled : service.Apart (service.cancelTimer .reconnect) := apart_cancelTimer _
  have reset := (uses_resetEncoder (accounted.along cancelled)).after cancelled
  have decoder : (service.cancelTimer .reconnect).resetEncoder.Apart
      { (service.cancelTimer .reconnect).resetEncoder with
        decoder := (service.cancelTimer .reconnect).resetEncoder.decoder.reset } :=
    ⟨rfl, Iff.rfl, .rfl, rfl⟩
  exact (reset.before decoder).before (apart_connect resolution)

theorem uses_heartbeat (accounted : service.Accounted) (resolution : Resolution) {now : Int}
    (silent : service.silent now = true) :
    service.Uses (service.handleTimer .heartbeat resolution now) := by
  have set : service.Apart (service.setTimer .heartbeat 3000) := apart_setTimer _ _
  have called : (service.setTimer .heartbeat 3000).Apart
      ((service.setTimer .heartbeat 3000).record .heartbeat) :=
    apart_record (fun _ => rfl) fun _ => trivial
  rw [handleTimer, if_pos silent]
  exact (uses_send (accounted.along (set.trans called)) heartBeat).after (set.trans called)

/-- What an event does to the buffers and to the record of them. -/
structure Answered (service : InputService) (event : Event) (next : InputService) : Prop where
  accounted : next.Accounted
  kept : BuffersKept next.history ↔ BuffersKept service.history ∧ service.NoneOutstanding event
  intact : service.Intact → service.NoneOutstanding event → next.Intact

theorem Uses.answered (uses : service.Uses next) (accounted : service.Accounted) {event : Event}
    (using_ : service.Using event) : service.Answered event next where
  accounted := uses.accounted
  kept := by
    have same : service.sending = [] ↔ service.NoneOutstanding event := by
      constructor
      · exact fun none _ => (accounted.writes.symm.trans (.of_eq none)).eq_nil
      · exact fun none => (accounted.writes.trans (.of_eq (none using_))).eq_nil
    rw [uses.kept, same]
  intact := fun _ none => uses.intact (none using_)

theorem Apart.answered (apart : service.Apart next) (accounted : service.Accounted) {event : Event}
    (unused : ¬service.Using event) : service.Answered event next where
  accounted := accounted.along apart
  kept := by
    rw [apart.kept]
    exact (and_iff_left fun used => absurd used unused).symm
  intact := fun intact _ => intact.along apart

/-- The handler of a write is called: the write is no longer outstanding. -/
theorem answered_written (accounted : service.Accounted) {superseded : Bool} {writing : Writing}
    (started : writing ∈ service.socket.writes.those superseded) (completion : Completion Unit) :
    service.Answered (.write superseded writing completion)
      (service.exec (.write superseded writing completion)) := by
  have ended := service.socket.writes.outstanding_complete started
  have kept : BuffersKept (service.record (.written writing)).history ↔
      BuffersKept service.history ∧ True := kept_record _
  have answered : service.Answered (.write superseded writing completion)
      ({ service with
        socket.writes := service.socket.writes.complete superseded writing }.record
          (.written writing)) := by
    refine ⟨⟨?_, accounted.apart⟩, ?_, fun intact _ other member => ?_⟩
    · rw [sending_record]
      exact (accounted.writes.erase writing).trans ended.symm
    · exact kept.trans (and_congr_right fun _ => ⟨fun _ used => absurd used id, fun _ => trivial⟩)
    · exact intact other (List.mem_of_mem_erase (ended.mem_iff.mp member))
  have handled : InputService.Apart _
      (service.exec (.write superseded writing completion)) := apart_writeHandle completion
  exact
    { accounted := answered.accounted.along handled
      kept := handled.kept.trans answered.kept
      intact := fun intact none => (answered.intact intact none).along handled }

/-- Every event keeps the accounts, and keeps the buffers exactly if none is outstanding when the
encoder is used. -/
theorem Accounted.exec (accounted : service.Accounted) {event : Event}
    (enabled : service.Enabled event) : service.Answered event (service.exec event) := by
  obtain ⟨-, possible⟩ := enabled
  cases event with
  | connected superseded completion =>
      have completed : service.Apart
          { service with socket.connects := service.socket.connects.complete superseded () } :=
        ⟨rfl, Iff.rfl, .rfl, rfl⟩
      rcases completion with _ | code | noDelay
      · exact completed.answered accounted id
      · exact (completed.trans (apart_handleConnect code.property)).answered accounted id
      · by_cases input : service.socket.input = true
        · exact ((uses_connected (accounted.along completed) noDelay input).after
            completed).answered accounted input
        · have undefined : service.Apart
              (service.exec (.connected superseded (.done noDelay))) := by
            rw [InputService.exec, connnectHandle, if_neg input]
            exact ⟨rfl, Iff.rfl, .rfl, rfl⟩
          exact undefined.answered accounted input
  | refused superseded =>
      have closed : service.Apart (service.exec (.refused superseded)) :=
        ⟨rfl, Iff.rfl, Operations.outstanding_supersede _, rfl⟩
      exact closed.answered accounted id
  | read superseded completion =>
      have completed : service.Apart
          { service with socket.reads := service.socket.reads.complete superseded () } :=
        ⟨rfl, Iff.rfl, .rfl, rfl⟩
      exact (completed.trans (apart_readHandle completion)).answered accounted id
  | write superseded writing completion => exact answered_written accounted possible.1 completion
  | expires timerID => exact (apart_onTimer timerID _).answered accounted id
  | timer timerID aborted resolution now =>
      have handled : service.Apart (service.onTimer timerID (Timer.handled · aborted)) :=
        apart_onTimer timerID _
      cases aborted with
      | true => cases timerID <;> exact handled.answered accounted id
      | false =>
          cases timerID with
          | reconnect =>
              exact ((uses_reconnect (accounted.along handled) resolution now).after
                handled).answered accounted trivial
          | heartbeat =>
              by_cases silent : service.silent now = true
              · exact ((uses_heartbeat (accounted.along handled) resolution silent).after
                  handled).answered accounted silent
              · have set := handled.trans (apart_setTimer .heartbeat 3000)
                rw [InputService.exec, timerHandle, if_neg (by simp), handleTimer]
                split
                · rename_i loud
                  exact absurd loud silent
                · exact set.answered accounted silent
  | close =>
      have closed : service.Apart (service.exec .close) := by
        rw [InputService.exec]
        split
        · exact ⟨rfl, Iff.rfl, Operations.outstanding_supersede _, rfl⟩
        · exact ⟨rfl, Iff.rfl, .rfl, rfl⟩
      exact closed.answered accounted id

theorem accounted_run (resolution : Resolution) :
    (run resolution).Accounted ∧ BuffersKept (run resolution).history ∧
      (run resolution).Intact := by
  have distinct : Side.first ≠ Side.second := by decide
  have fresh : init.Accounted := ⟨.rfl, distinct⟩
  have connects : init.Apart (run resolution) := apart_connect resolution
  exact ⟨fresh.along connects, connects.kept.mpr Throughout.nil,
    Intact.along (intact_of_none rfl) connects⟩

theorem accounted_of_run {steps : List (InputService × Event)} {service : InputService}
    (run : Run steps service) : service.Accounted := by
  refine run.keeps Accounted (fun _ _ => True) ?_ ?_ (fun _ _ => trivial)
  · rintro start ⟨resolution, rfl⟩
    exact (accounted_run resolution).1
  · intro before event accounted enabled _
    exact (accounted.exec enabled).accounted

/-- The encoder is used while a write is outstanding. -/
theorem Accounted.overwrites (accounted : service.Accounted) {event : Event}
    (enabled : service.Enabled event) (used : service.Using event)
    (busy : service.socket.writes.outstanding ≠ []) :
    ¬BuffersKept (service.exec event).history := by
  rw [(accounted.exec enabled).kept]
  rintro ⟨-, none⟩
  exact busy (none used)

/-- In a run, the buffers that are being sent are left alone, and writes do not overlap, exactly if
no write is outstanding whenever the encoder is used; then they hold what was handed over. -/
theorem buffers_kept_iff {steps : List (InputService × Event)} {service : InputService}
    (run : Run steps service) :
    (BuffersKept service.history ↔ ∀ step ∈ steps, NoneOutstanding step.1 step.2) ∧
      ((∀ step ∈ steps, NoneOutstanding step.1 step.2) → service.Intact) := by
  constructor
  · refine run.exactly Accounted (BuffersKept ·.history) NoneOutstanding ?_ ?_
    · rintro start ⟨resolution, rfl⟩
      exact ⟨(accounted_run resolution).1, (accounted_run resolution).2.1⟩
    · intro before event accounted enabled
      exact ⟨(accounted.exec enabled).accounted, (accounted.exec enabled).kept⟩
  · intro clear
    have both : service.Accounted ∧ service.Intact := by
      refine run.keeps (fun before => before.Accounted ∧ before.Intact) NoneOutstanding ?_ ?_ clear
      · rintro start ⟨resolution, rfl⟩
        exact ⟨(accounted_run resolution).1, (accounted_run resolution).2.2⟩
      · rintro before event ⟨accounted, intact⟩ enabled none
        have answered := accounted.exec enabled
        exact ⟨answered.accounted, answered.intact intact none⟩
    exact both.2

/-- The logon is being sent when the answer to it arrives. -/
theorem buffers_kept_iff_logged_on :
    ∃ (steps : List (InputService × Event)) (service : InputService), Run steps service ∧
      service.socket.writes.outstanding.length = 1 ∧ BuffersKept service.history ∧
      service.Intact := by
  have clear : ∀ step ∈ (InputService.run .found).trail loggedOn,
      NoneOutstanding step.1 step.2 :=
    List.forall_mem_cons.mpr ⟨fun _ => rfl, List.forall_mem_singleton.mpr fun used =>
      absurd used id⟩
  have kept := buffers_kept_iff run_loggedOn
  exact ⟨_, _, run_loggedOn, rfl, kept.1.mpr clear, kept.2 clear⟩

/-- The logon is still being sent when a heartbeat is due: its buffer is cleared, and a second write
is started beside it. -/
theorem heartbeat_while_logon_is_sent :
    ∃ (steps : List (InputService × Event)) (service : InputService), Run steps service ∧
      steps.map Prod.snd =
        loggedOn ++ [.expires .heartbeat, .timer .heartbeat false .found 4000000000] ∧
      service.socket.writes.pending.length = 2 ∧ ¬BuffersKept service.history := by
  have expired := run_loggedOn.step (.expires .heartbeat) ⟨rfl, by decide⟩
  have enabled : InputService.Enabled
      ((loggedOn.foldl exec (InputService.run .found)).exec (.expires .heartbeat))
      (.timer .heartbeat false .found 4000000000) := ⟨rfl, by decide⟩
  have handled := expired.step (.timer .heartbeat false .found 4000000000) enabled
  refine ⟨_, _, handled, rfl, rfl, ?_⟩
  exact (accounted_of_run expired).overwrites enabled rfl (List.cons_ne_nil _ _)

end InputService

end FlashForwarder
