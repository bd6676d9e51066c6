import FlashForwarder.Service.InputService
import FlashForwarder.SzBinary.Delivery

/-!
# The service never goes dead

Every handler that ends a connection sets the reconnect timer, and every other handler leaves a
connect or a read behind.  An aborted completion is swallowed, but it belongs to an operation that
another one has superseded.
-/

namespace FlashForwarder

open Asynchronous SzBinaryDecoder

namespace InputService

/-- A connect is in progress, a read is outstanding, or the reconnect timer is armed or its expiry
queued; superseded operations do not count. -/
def Alive (service : InputService) : Prop :=
  service.socket.connects.pending ≠ [] ∨ service.socket.reads.pending ≠ [] ∨
    (service.entry .reconnect).Armed

variable {service : InputService}

/-! ## What brings it to life -/

theorem alive_setTimer (milli : Int) : (service.setTimer .reconnect milli).Alive := by
  refine Or.inr (Or.inr ?_)
  rw [entry_setTimer]
  exact Timer.armed_wait _

theorem alive_asyncRead (input : service.socket.input = true) : service.asyncRead.Alive := by
  rw [asyncRead, if_pos input]
  exact Or.inr (Or.inl (Operations.start_pending_ne_nil _ _))

theorem alive_handleConnect (input : service.socket.input = true) (errorcode : Int) :
    (service.handleConnect errorcode).Alive := by
  rw [handleConnect]
  split
  · exact alive_asyncRead ((steady_send logonMsg).input.trans input)
  · exact alive_setTimer 3000

theorem alive_connect (input : service.socket.input = true) (resolution : Resolution) :
    (service.connect resolution).Alive := by
  rw [connect.eq_def, if_pos input]
  cases resolution with
  | found => exact Or.inl (Operations.start_pending_ne_nil _ _)
  | failed code => exact alive_handleConnect input _

/-! ## What leaves it alive -/

/-- The waits on a timer change; if it is the reconnect timer, it stays armed. -/
theorem Alive.onTimer (alive : service.Alive) {timerID : TimerID} {change : Timer → Timer}
    (kept : timerID = .reconnect → ∀ timer, timer.Armed → (change timer).Armed) :
    (service.onTimer timerID change).Alive := by
  rcases alive with connecting | reading | armed
  · exact Or.inl connecting
  · exact Or.inr (Or.inl reading)
  · refine Or.inr (Or.inr ?_)
    by_cases same : timerID = .reconnect
    · subst same
      rw [entry_onTimer]
      exact kept rfl _ armed
    · rwa [entry_onTimer_of_ne (Ne.symm same)]

theorem Alive.setTimer (alive : service.Alive) (timerID : TimerID) (milli : Int) :
    (service.setTimer timerID milli).Alive := by
  rw [setTimer_eq]
  exact alive.onTimer fun _ timer _ => Timer.armed_wait _

theorem Alive.sendHeartBeat (alive : service.Alive) : service.sendHeartBeat.Alive := by
  rw [InputService.sendHeartBeat, doWrite, asyncWrite]
  split <;> exact alive

/-! ## What the handlers do -/

/-- A service that is alive and has its socket. -/
structure Recovering (service : InputService) : Prop where
  alive : service.Alive
  input : service.socket.input = true

theorem recovering_asyncRead (input : service.socket.input = true) :
    service.asyncRead.Recovering :=
  ⟨alive_asyncRead input, steady_asyncRead.input.trans input⟩

theorem recovering_handleConnect (input : service.socket.input = true) (errorcode : Int) :
    (service.handleConnect errorcode).Recovering :=
  ⟨alive_handleConnect input errorcode, (steady_handleConnect errorcode).input.trans input⟩

theorem recovering_connect (input : service.socket.input = true) (resolution : Resolution) :
    (service.connect resolution).Recovering :=
  ⟨alive_connect input resolution, (steady_connect resolution).input.trans input⟩

theorem recovering_handleError (input : service.socket.input = true) :
    service.handleError.Recovering :=
  ⟨alive_setTimer 3000, steady_handleError.input.trans input⟩

theorem recovering_connnectHandle (input : service.socket.input = true)
    {completion : Completion Bool} (told : completion = .aborted → service.Alive)
    (noDelay : completion ≠ .done false) : (service.connnectHandle completion).Recovering := by
  rcases completion with _ | code | _ | _
  · exact ⟨told rfl, input⟩
  · exact recovering_handleConnect input _
  · exact absurd rfl noDelay
  · rw [connnectHandle, if_pos input, if_pos rfl]
    exact recovering_handleConnect input 0

theorem recovering_readHandle (input : service.socket.input = true)
    {completion : Completion Received} (told : completion = .aborted → service.Alive) :
    (service.readHandle completion).Recovering := by
  cases completion with
  | aborted => exact ⟨told rfl, input⟩
  | failed code => exact recovering_handleError input
  | done received =>
      exact recovering_asyncRead ((steady_foldl_handlemessage _).input.trans input)

theorem Recovering.writeHandle (recovering : service.Recovering) (completion : Completion Unit) :
    (service.writeHandle completion).Recovering := by
  cases completion with
  | aborted => exact recovering
  | failed code => exact recovering_handleError recovering.input
  | done result => exact recovering

theorem Recovering.onTimer (recovering : service.Recovering) {timerID : TimerID}
    {change : Timer → Timer}
    (kept : timerID = .reconnect → ∀ timer, timer.Armed → (change timer).Armed) :
    (service.onTimer timerID change).Recovering :=
  ⟨recovering.alive.onTimer kept, recovering.input⟩

theorem recovering_reconnect (input : service.socket.input = true) (resolution : Resolution)
    (now : Int) : (service.handleTimer .reconnect resolution now).Recovering := by
  have reset : service.Steady (service.cancelTimer .reconnect).resetEncoder :=
    (steady_cancelTimer _).trans steady_resetEncoder
  rw [handleTimer]
  refine recovering_connect ?_ resolution
  exact reset.input.trans input

theorem Recovering.heartbeat (recovering : service.Recovering) (resolution : Resolution)
    (now : Int) : (service.handleTimer .heartbeat resolution now).Recovering := by
  refine ⟨?_, (steady_heartbeat resolution now).input.trans recovering.input⟩
  rw [handleTimer]
  split
  · exact (recovering.alive.setTimer .heartbeat 3000).sendHeartBeat
  · exact recovering.alive.setTimer .heartbeat 3000

/-! ## Runs -/

/-- Setting `no_delay` succeeds, and `stop` is not called. -/
def Undisturbed : Event → Prop
  | .connected _ completion => completion ≠ .done false
  | .close => False
  | _ => True

theorem Recovering.exec (recovering : service.Recovering) {event : Event}
    (enabled : service.Enabled event) (undisturbed : Undisturbed event) :
    (service.exec event).Recovering := by
  obtain ⟨alive, input⟩ := recovering
  obtain ⟨-, possible⟩ := enabled
  cases event with
  | connected superseded completion =>
      rw [InputService.exec]
      refine recovering_connnectHandle ?_ (fun aborted => ?_) undisturbed
      · exact input
      · subst aborted
        obtain rfl : superseded = true := possible.2
        exact alive
  | refused superseded => exact ⟨Or.inl (Operations.start_pending_ne_nil _ _), input⟩
  | read superseded completion =>
      rw [InputService.exec]
      refine recovering_readHandle ?_ fun aborted => ?_
      · exact input
      · subst aborted
        obtain rfl : superseded = true := possible.2.1
        exact alive
  | write superseded writing completion =>
      rw [InputService.exec]
      apply Recovering.writeHandle
      exact ⟨alive, input⟩
  | expires timerID => exact Recovering.onTimer ⟨alive, input⟩ fun _ _ armed => armed.expire
  | timer timerID aborted resolution now =>
      cases aborted with
      | true => exact Recovering.onTimer ⟨alive, input⟩ fun _ _ armed => armed.handled
      | false =>
          cases timerID with
          | reconnect =>
              have handled : service.Steady (service.onTimer .reconnect (Timer.handled · false)) :=
                steady_onTimer _ _
              exact recovering_reconnect (handled.input.trans input) resolution now
          | heartbeat =>
              have kept : (service.onTimer .heartbeat (Timer.handled · false)).Recovering :=
                Recovering.onTimer ⟨alive, input⟩ (by simp)
              exact kept.heartbeat resolution now
  | close => exact absurd undisturbed id

/-- An event uses the decoder on what a read has brought, resets it, or leaves it alone. -/
theorem decoder_exec {event : Event} (enabled : service.Enabled event) :
    (service.exec event).decoder = service.decoder ∨ (service.exec event).decoder = fresh ∨
      ∃ received : Received, Decodes service.decoder received.chunk received.decoded ∧
        (service.exec event).decoder = received.decoded.decoder := by
  obtain ⟨-, possible⟩ := enabled
  cases event with
  | connected superseded completion =>
      refine Or.inl ?_
      rcases completion with _ | code | noDelay
      · rfl
      · exact (steady_handleConnect _).decoder
      · rw [InputService.exec, connnectHandle]
        split
        · split <;> exact (steady_handleConnect 0).decoder
        · rfl
  | refused superseded => exact Or.inl rfl
  | read superseded completion =>
      rcases completion with _ | code | received
      · exact Or.inl rfl
      · exact Or.inl steady_handleError.decoder
      · obtain ⟨-, decodes⟩ := possible.2.2 received rfl
        refine Or.inr (Or.inr ⟨received, decodes, ?_⟩)
        exact steady_asyncRead.decoder.trans (steady_foldl_handlemessage _).decoder
  | write superseded writing completion => exact Or.inl (steady_writeHandle completion).decoder
  | expires timerID => exact Or.inl rfl
  | timer timerID aborted resolution now =>
      cases aborted with
      | true => exact Or.inl rfl
      | false =>
          cases timerID with
          | reconnect => exact Or.inr (Or.inl (steady_connect resolution).decoder)
          | heartbeat => exact Or.inl (steady_heartbeat resolution now).decoder
  | close =>
      rw [InputService.exec]
      split <;> exact Or.inl rfl

/-- In every run, `decode` returns on whatever a read brings. -/
theorem exists_decodes {steps : List (InputService × Event)} {service : InputService}
    (run : Run steps service) {chunk : Chunk} (room : chunk.bytes.length ≤ maxBufferSize) :
    ∃ decoded, Decodes service.decoder chunk decoded := by
  have settled : ∃ stream pieces, Settled stream pieces service.decoder := by
    refine run.keeps (fun before => ∃ stream pieces, Settled stream pieces before.decoder)
      (fun _ _ => True) ?_ ?_ (fun _ _ => trivial)
    · rintro start ⟨resolution, rfl⟩
      refine ⟨[], [], ?_⟩
      rw [InputService.run, (steady_connect resolution).decoder]
      exact settled_fresh ⟨.nil _, by simp⟩
    · rintro before event ⟨stream, pieces, settled⟩ enabled _
      rcases decoder_exec enabled with same | reset | ⟨received, decodes, next⟩
      · exact ⟨stream, pieces, by rwa [same]⟩
      · exact ⟨stream, pieces, by rw [reset]; exact settled_fresh settled.extracted⟩
      · have fed := (Feeds.cons decodes (.nil _)).settled settled
        exact ⟨_, _, by rw [next]; exact fed⟩
  obtain ⟨stream, pieces, settled⟩ := settled
  exact settled.exists_decodes (Nat.lt_of_le_of_lt room (by decide))

/-- After `run` and before `stop`, whatever completes in whatever order and with whatever outcome,
there is a connect in progress, a read outstanding, or the reconnect timer armed or its expiry
queued. -/
theorem never_dead {steps : List (InputService × Event)} {service : InputService}
    (run : Run steps service) (undisturbed : ∀ step ∈ steps, Undisturbed step.2) :
    service.Alive := by
  have recovering : service.Recovering := by
    refine run.keeps Recovering (fun _ => Undisturbed) ?_ ?_ undisturbed
    · rintro start ⟨resolution, rfl⟩
      exact recovering_connect rfl resolution
    · intro before event kept enabled
      exact kept.exec enabled
  exact recovering.alive

/-- The first connect is refused, and the reconnect timer expires. -/
theorem never_dead_refused :
    ∃ (steps : List (InputService × Event)) (service : InputService), Run steps service ∧
      service.socket.connects.outstanding = [] ∧ service.Alive := by
  have started : Run [] (InputService.run .found) := .nil ⟨.found, rfl⟩
  have failed := started.step (.connected false (.failed ⟨111, by decide⟩))
    ⟨rfl, by decide, trivial⟩
  have expired := failed.step (.expires .reconnect) ⟨rfl, by decide⟩
  exact ⟨_, _, expired, rfl, never_dead expired (by simp [Undisturbed])⟩

end InputService

end FlashForwarder
