import FlashForwarder.Service.InputService

/-!
# What the service is told of its socket

A socket is connected by a connect that succeeds, until it is closed, connected anew or destroyed.
If every connect that succeeds can set `no_delay`, and none reports a connection that was lost
meanwhile, then `handleConnect` is told of a success only while the socket is connected, nothing
follows a null pointer, and a reconnect finds a socket.  In every other run it is told of a success
that is none.
-/

namespace FlashForwarder

open Asynchronous Transition

namespace InputService

/-- The error code that `connect` calls `handleConnect` with, if it does so at once. -/
def connectTold (service : InputService) : Resolution → Option Int
  | .failed code => if service.socket.input then some code else some (-1)
  | .found => if service.socket.input then none else some (-1)

/-- The error code that `handleConnect` is called with in an event. -/
def told (service : InputService) : Event → Option Int
  | .connected _ (.failed code) => some code
  | .connected _ (.done _) => if service.socket.input then some 0 else none
  | .timer .reconnect false resolution _ => service.connectTold resolution
  | _ => none

/-- Whether the socket is connected after an event, by whether it was before.  It is closed before
it is connected, and what a superseded connect achieved was lost when it was closed. -/
def linkedAfter (linked : Bool) : InputService × Event → Bool
  | (service, .timer .reconnect false .found _) => linked && !service.socket.input
  | (_, .refused _) => false
  | (_, .close) => false
  | (_, .connected superseded (.done noDelay)) => (linked || !superseded) && noDelay
  | _ => linked

/-- A reconnect, should its address be resolved, finds a socket and starts to connect it. -/
def Reconnects (service : InputService) : Prop :=
  ∀ now, () ∈ (service.exec (.timer .reconnect false .found now)).socket.connects.pending

/-- The service is told of a success only if the socket is connected, has followed no null pointer,
and can reconnect. -/
structure Sound (steps : List (InputService × Event)) (service : InputService) : Prop where
  truthful : Throughout
    (fun linked step => step.1.told step.2 = some 0 → linkedAfter linked step = true)
    linkedAfter false steps
  defined : service.undefined = false
  reconnects : service.Reconnects

/-- A connect that succeeds can set `no_delay`, and it is not superseded unless the socket is
connected all the same. -/
def Kept (linked : Bool) : InputService × Event → Prop
  | (_, .connected superseded (.done noDelay)) =>
      noDelay = true ∧ (superseded = true → linked = true)
  | _ => True

variable {service : InputService}

/-! ## The error codes told -/

/-- Either a connect has completed, or `connect` calls `handleConnect` at once. -/
theorem told_cases {event : Event} {errorcode : Int} (told : service.told event = some errorcode) :
    (∃ superseded code, event = .connected superseded (.failed code) ∧ errorcode = code.val) ∨
      (∃ superseded noDelay, event = .connected superseded (.done noDelay) ∧
        service.socket.input = true ∧ errorcode = 0) ∨
      ∃ resolution now, event = .timer .reconnect false resolution now ∧
        service.connectTold resolution = some errorcode := by
  revert told
  fun_cases InputService.told service event with
  | case1 superseded code =>
      intro told
      exact Or.inl ⟨superseded, code, rfl, (Option.some.inj told).symm⟩
  | case2 superseded noDelay input =>
      intro told
      exact Or.inr (Or.inl ⟨superseded, noDelay, rfl, input, (Option.some.inj told).symm⟩)
  | case3 superseded noDelay absent => exact fun told => nomatch told
  | case4 resolution now =>
      intro told
      exact Or.inr (Or.inr ⟨resolution, now, rfl, told⟩)
  | case5 => exact fun told => nomatch told

/-- The error code is never zero if `connect` calls `handleConnect` at once. -/
theorem connectTold_ne_zero (resolution : Resolution) :
    service.connectTold resolution ≠ some 0 := by
  cases resolution with
  | failed code =>
      rw [connectTold]
      split
      · exact fun told => code.property (Option.some.inj told)
      · exact fun told => absurd (Option.some.inj told) (by decide)
  | found =>
      rw [connectTold]
      split
      · exact Option.some_ne_none _ |>.symm
      · exact fun told => absurd (Option.some.inj told) (by decide)

/-- A success is told only when a connect succeeds. -/
theorem told_zero {event : Event} (told : service.told event = some 0) :
    ∃ superseded noDelay, event = .connected superseded (.done noDelay) := by
  rcases told_cases told with ⟨_, code, -, zero⟩ | ⟨superseded, noDelay, same, -, -⟩ |
    ⟨resolution, -, -, zero⟩
  · exact absurd zero.symm code.property
  · exact ⟨superseded, noDelay, same⟩
  · exact absurd zero (connectTold_ne_zero resolution)

/-! ## Another handler -/

section

variable (handler : InputService → Int → InputService)

/-- `connect`, calling another handler for `handleConnect`. -/
def connectWith (service : InputService) (resolution : Resolution) : InputService :=
  if service.socket.input then
    match resolution with
    | .failed code => handler service code
    | .found =>
        let closed := service.socket.close
        { service with socket := { closed with connects := closed.connects.start () } }
  else handler service (-1)

/-- `connnectHandle`, calling another handler. -/
def connnectHandleWith (service : InputService) : Completion Bool → InputService
  | .aborted => service
  | .failed code => handler service code
  | .done noDelay =>
      if service.socket.input then
        if noDelay then handler service 0
        else handler { service with socket := { service.socket.close with input := false } } 0
      else { service with undefined := true }

/-- What an event leads to if another handler is called for `handleConnect`. -/
def execWith (service : InputService) : Event → InputService
  | .connected superseded completion =>
      let socket :=
        { service.socket with connects := service.socket.connects.complete superseded () }
      connnectHandleWith handler { service with socket := socket } completion
  | .timer .reconnect false resolution _ =>
      let reset :=
        ((service.onTimer .reconnect (Timer.handled · false)).cancelTimer .reconnect).resetEncoder
      connectWith handler { reset with decoder := reset.decoder.reset } resolution
  | event => service.exec event

end

theorem execWith_handleConnect (service : InputService) (event : Event) :
    service.execWith handleConnect event = service.exec event := by
  fun_cases execWith handleConnect service event with
  | case1 superseded completion => cases completion <;> rfl
  | case2 resolution now reset => cases resolution <;> rfl
  | case3 => rfl

/-- The expiry of the reconnect timer comes to a `connect`. -/
theorem execWith_reconnect (resolution : Resolution) (now : Int) :
    ∃ before : InputService, before.socket.input = service.socket.input ∧
      before.undefined = service.undefined ∧
      ∀ handler, service.execWith handler (.timer .reconnect false resolution now) =
        before.connectWith handler resolution := by
  have cancelled : (service.onTimer .reconnect (Timer.handled · false)).Steady
      ((service.onTimer .reconnect (Timer.handled · false)).cancelTimer .reconnect) :=
    steady_cancelTimer .reconnect
  refine ⟨_, ?_, ?_, fun handler => rfl⟩
  · exact cancelled.input
  · rw [resetEncoder, cancelTimer]
    split <;> rfl

theorem exec_reconnect (resolution : Resolution) (now : Int) :
    ∃ before : InputService, before.socket.input = service.socket.input ∧
      before.undefined = service.undefined ∧
      service.exec (.timer .reconnect false resolution now) = before.connect resolution := by
  obtain ⟨before, input, defined, connects⟩ := service.execWith_reconnect resolution now
  refine ⟨before, input, defined, ?_⟩
  rw [← execWith_handleConnect, connects]
  cases resolution <;> rfl

/-- What is told is what the handler is called with, last of all. -/
theorem execWith_of_told {event : Event} {errorcode : Int}
    (told : service.told event = some errorcode) :
    ∃ before : InputService, ∀ handler, service.execWith handler event =
      handler before errorcode := by
  rcases told_cases told with ⟨superseded, code, rfl, rfl⟩ |
    ⟨superseded, noDelay, rfl, input, rfl⟩ | ⟨resolution, now, rfl, at_once⟩
  · exact ⟨_, fun handler => rfl⟩
  · cases noDelay with
    | true => exact ⟨_, fun handler => (if_pos input).trans (if_pos rfl)⟩
    | false => exact ⟨_, fun handler => (if_pos input).trans (if_neg Bool.false_ne_true)⟩
  · obtain ⟨before, same, -, connects⟩ := service.execWith_reconnect resolution now
    refine ⟨before, fun handler => (connects handler).trans ?_⟩
    rw [connectWith.eq_def]
    cases resolution with
    | failed code =>
        rw [connectTold] at at_once
        split at at_once <;> obtain rfl := Option.some_inj.mp at_once
        · exact if_pos (same.trans ‹_›)
        · exact if_neg (same ▸ ‹_›)
    | found =>
        rw [connectTold] at at_once
        split at at_once
        · cases at_once
        · obtain rfl := Option.some_inj.mp at_once
          exact if_neg (same ▸ ‹_›)

/-- If nothing is told, the handler is not called. -/
theorem execWith_of_told_none {event : Event} (told : service.told event = none)
    (handler : InputService → Int → InputService) :
    service.execWith handler event = service.exec event := by
  rw [← execWith_handleConnect]
  fun_cases execWith handleConnect service event with
  | case1 superseded completion =>
      rcases completion with _ | code | noDelay
      · rfl
      · cases told
      · have absent : ¬service.socket.input = true := by
          intro input
          exact absurd ((if_pos input).symm.trans told) (Option.some_ne_none 0)
        exact (if_neg absent).trans (if_neg absent).symm
  | case2 resolution now =>
      obtain ⟨before, same, -, connects⟩ := service.execWith_reconnect resolution now
      refine (connects handler).trans (.trans ?_ (connects handleConnect).symm)
      cases resolution with
      | failed code =>
          change service.connectTold (.failed code) = none at told
          rw [connectTold] at told
          split at told <;> cases told
      | found =>
          change service.connectTold .found = none at told
          rw [connectTold] at told
          split at told
          · rw [connectWith, connectWith, if_pos (same.trans ‹_›), if_pos (same.trans ‹_›)]
          · cases told
  | case3 _ not_connected not_reconnect =>
      rw [execWith]
      · exact not_connected
      · exact not_reconnect

/-! ## A socket that is there -/

/-- The socket is there, and no null pointer has been followed. -/
structure Equipped (service : InputService) : Prop where
  input : service.socket.input = true
  defined : service.undefined = false

namespace Equipped

theorem record (equipped : service.Equipped) (effect : Effect) :
    (service.record effect).Equipped := ⟨equipped.input, equipped.defined⟩

theorem onTimer (equipped : service.Equipped) (timerID : TimerID) (change : Timer → Timer) :
    (service.onTimer timerID change).Equipped := ⟨equipped.input, equipped.defined⟩

theorem setTimer (equipped : service.Equipped) (timerID : TimerID) (milli : Int) :
    (service.setTimer timerID milli).Equipped := ⟨equipped.input, equipped.defined⟩

theorem cancelTimer (equipped : service.Equipped) (timerID : TimerID) :
    (service.cancelTimer timerID).Equipped := by
  rw [InputService.cancelTimer]
  split <;> exact ⟨equipped.input, equipped.defined⟩

theorem asyncRead (equipped : service.Equipped) : service.asyncRead.Equipped := by
  rw [InputService.asyncRead, if_pos equipped.input]
  exact ⟨equipped.input, equipped.defined⟩

theorem send (equipped : service.Equipped) (message : SessionMessage) :
    (service.encode message).doWrite.Equipped := by
  rw [doWrite, asyncWrite, if_pos (by exact equipped.input)]
  exact ⟨equipped.input, equipped.defined⟩

theorem handleConnect (equipped : service.Equipped) (errorcode : Int) :
    (service.handleConnect errorcode).Equipped := by
  rw [InputService.handleConnect]
  split
  · exact (equipped.send logonMsg).asyncRead
  · exact equipped.setTimer .reconnect 3000

theorem connect (equipped : service.Equipped) (resolution : Resolution) :
    (service.connect resolution).Equipped := by
  rw [InputService.connect.eq_def, if_pos equipped.input]
  cases resolution with
  | failed code => exact equipped.handleConnect code
  | found => exact ⟨equipped.input, equipped.defined⟩

theorem handleError (equipped : service.Equipped) : service.handleError.Equipped :=
  ((equipped.record .ended).cancelTimer .heartbeat).setTimer .reconnect 3000

theorem handlemessage (equipped : service.Equipped) (content : List UInt8) :
    (service.handlemessage content).Equipped := by
  rw [InputService.handlemessage]
  split
  · exact (equipped.record .logon).setTimer .heartbeat 3000
  · exact equipped.handleError
  · exact equipped

theorem foldl_handlemessage (equipped : service.Equipped) (handed : List (List UInt8)) :
    (handed.foldl InputService.handlemessage service).Equipped := by
  induction handed generalizing service with
  | nil => exact equipped
  | cons content handed ih => exact ih (equipped.handlemessage content)

theorem connnectHandle (equipped : service.Equipped) {completion : Completion Bool}
    (noDelay : completion ≠ .done false) : (service.connnectHandle completion).Equipped := by
  rcases completion with _ | code | _ | _
  · exact equipped
  · exact equipped.handleConnect code
  · exact absurd rfl noDelay
  · rw [InputService.connnectHandle, if_pos equipped.input, if_pos rfl]
    exact equipped.handleConnect 0

theorem readHandle (equipped : service.Equipped) (completion : Completion Received) :
    (service.readHandle completion).Equipped := by
  cases completion with
  | aborted => exact equipped
  | failed code => exact equipped.handleError
  | done received =>
      rw [InputService.readHandle]
      apply Equipped.asyncRead
      apply Equipped.foldl_handlemessage
      exact ⟨equipped.input, equipped.defined⟩

theorem writeHandle (equipped : service.Equipped) (completion : Completion Unit) :
    (service.writeHandle completion).Equipped := by
  cases completion with
  | aborted => exact equipped
  | failed code => exact equipped.handleError
  | done result => exact equipped

theorem heartbeat (equipped : service.Equipped) (resolution : Resolution) (now : Int) :
    (service.handleTimer .heartbeat resolution now).Equipped := by
  rw [handleTimer]
  split
  · exact ((equipped.setTimer .heartbeat 3000).record .heartbeat).send heartBeat
  · exact equipped.setTimer .heartbeat 3000

/-- No event destroys the socket but a connect that cannot set `no_delay`. -/
theorem exec (equipped : service.Equipped) {event : Event}
    (noDelay : ∀ superseded, event ≠ .connected superseded (.done false)) :
    (service.exec event).Equipped := by
  obtain ⟨input, defined⟩ := equipped
  cases event with
  | connected superseded completion =>
      rw [InputService.exec]
      apply Equipped.connnectHandle
      · exact ⟨input, defined⟩
      · rintro rfl
        exact noDelay superseded rfl
  | refused superseded => exact ⟨input, defined⟩
  | read superseded completion =>
      rw [InputService.exec]
      apply Equipped.readHandle
      exact ⟨input, defined⟩
  | write superseded writing completion =>
      rw [InputService.exec]
      apply Equipped.writeHandle
      exact ⟨input, defined⟩
  | expires timerID => exact Equipped.onTimer ⟨input, defined⟩ timerID _
  | timer timerID aborted resolution now =>
      cases aborted with
      | true => exact ⟨input, defined⟩
      | false =>
          cases timerID with
          | reconnect =>
              obtain ⟨before, same, kept, connects⟩ := service.exec_reconnect resolution now
              rw [connects]
              exact Equipped.connect ⟨same.trans input, kept.trans defined⟩ resolution
          | heartbeat =>
              have handled : (service.onTimer .heartbeat (Timer.handled · false)).Equipped :=
                Equipped.onTimer ⟨input, defined⟩ .heartbeat _
              exact handled.heartbeat resolution now
  | close =>
      rw [InputService.exec, if_pos input]
      exact ⟨input, defined⟩

/-- A socket that is there can be connected anew. -/
theorem reconnects (equipped : service.Equipped) : service.Reconnects := by
  intro now
  obtain ⟨before, same, -, connects⟩ := service.exec_reconnect .found now
  rw [connects, InputService.connect.eq_def, if_pos (same.trans equipped.input)]
  exact List.mem_append_right _ (List.mem_singleton_self ())

end Equipped

/-! ## Runs -/

theorem Started.equipped (started : service.Started) : service.Equipped := by
  obtain ⟨resolution, rfl⟩ := started
  exact Equipped.connect ⟨rfl, rfl⟩ resolution

variable {steps : List (InputService × Event)}

/-- The socket is there as long as `no_delay` can be set. -/
theorem Run.equipped (run : Run steps service) (kept : Throughout Kept linkedAfter false steps) :
    service.Equipped := by
  induction run with
  | nil started => exact Started.equipped started
  | step run event enabled ih =>
      obtain ⟨earlier, here⟩ := throughout_concat.mp kept
      refine (ih earlier).exec ?_
      rintro superseded rfl
      exact absurd here.1 (by decide)

/-- A success that is told of a connected socket is one that no close has undone. -/
theorem kept_iff {linked : Bool} {step : InputService × Event}
    (input : step.1.socket.input = true) :
    Kept linked step ↔ (step.1.told step.2 = some 0 → linkedAfter linked step = true) := by
  obtain ⟨service, event⟩ := step
  constructor
  · intro kept told
    obtain ⟨superseded, noDelay, rfl⟩ := told_zero told
    obtain ⟨rfl, live⟩ := kept
    cases superseded with
    | false => simp [linkedAfter]
    | true => simp [linkedAfter, live rfl]
  · intro truthful
    cases event with
    | connected superseded completion =>
        cases completion with
        | done noDelay =>
            have after :
                linkedAfter linked (service, .connected superseded (.done noDelay)) = true :=
              truthful (if_pos input)
            simp only [linkedAfter, Bool.and_eq_true, Bool.or_eq_true] at after
            exact ⟨after.2, fun same => after.1.resolve_right (by simp [same])⟩
        | aborted => trivial
        | failed code => trivial
    | refused superseded => trivial
    | read superseded completion => trivial
    | write superseded writing completion => trivial
    | expires timerID => trivial
    | timer timerID aborted resolution now => trivial
    | close => trivial

/-- Only such successes are told. -/
theorem Run.truthful_iff (run : Run steps service) :
    Throughout (fun linked step => step.1.told step.2 = some 0 → linkedAfter linked step = true)
      linkedAfter false steps ↔ Throughout Kept linkedAfter false steps := by
  induction run with
  | nil started => exact ⟨fun _ => .nil, fun _ => .nil⟩
  | step run event enabled ih =>
      rw [throughout_concat, throughout_concat, ih]
      refine and_congr_right fun kept => ?_
      exact (kept_iff (Run.equipped run kept).input).symm

/-- In every run the service is told of a success only if its socket is connected, follows no null
pointer and can reconnect, exactly if every connect that succeeds can set `no_delay` and is either
not superseded or reported while the socket is connected. -/
theorem sound_iff (run : Run steps service) :
    Sound steps service ↔ Throughout Kept linkedAfter false steps := by
  constructor
  · intro sound
    exact run.truthful_iff.mp sound.truthful
  · intro kept
    have equipped := run.equipped kept
    exact ⟨run.truthful_iff.mpr kept, equipped.defined, equipped.reconnects⟩

/-- The service connects, and is logged on. -/
theorem sound_iff_loggedOn :
    Sound ((run .found).trail loggedOn) (loggedOn.foldl exec (run .found)) := by
  refine (sound_iff run_loggedOn).mpr ?_
  rw [show (run .found).trail loggedOn = [_] ++ [_] from rfl, throughout_concat]
  refine ⟨?_, trivial⟩
  rw [← List.nil_append [_], throughout_concat]
  exact ⟨.nil, rfl, fun superseded => nomatch superseded⟩

/-- When `no_delay` cannot be set, the service is told of a success, and follows the pointer to the
socket that was destroyed. -/
theorem destroyed_socket_not_sound :
    ¬ ∀ (steps : List (InputService × Event)) (service : InputService),
      Run steps service → Sound steps service := by
  intro sound
  have started : Run [] (InputService.run .found) := .nil ⟨.found, rfl⟩
  have connected := started.step (.connected false (.done false)) ⟨rfl, by decide, trivial⟩
  have defined : ((InputService.run .found).exec (.connected false (.done false))).undefined =
      false := (sound _ _ connected).defined
  exact absurd defined (by decide)

end InputService

end FlashForwarder
