import FlashForwarder.Service.InputService

/-!
# Heartbeats and the session

The heartbeat timer is armed when a logon arrives and whenever it expires; an error or a logout
cancels it.  Nothing else tells a handler whether a session is on, and a cancel does not recall an
expiry that is queued.
-/

namespace FlashForwarder

open Asynchronous Transition

/-- The service sends a heartbeat, or arms the heartbeat timer. -/
def Effect.Heartbeat : Effect → Prop
  | .heartbeat => True
  | .timerSet timerID _ => timerID = .heartbeat
  | _ => False

/-- Whether an error or a logout has come since the last logon, after one more effect. -/
def endedAfter (ended : Bool) : Effect → Bool
  | .ended => true
  | .logon => false
  | _ => ended

/-- No heartbeat is sent, and the heartbeat timer is not armed, between an error or a logout and the
next logon. -/
def HeartbeatsInside (history : List Effect) : Prop :=
  Throughout (fun ended effect => effect.Heartbeat → ended = false) endedAfter false history

namespace InputService

/-- Whether an error or a logout has come since the last logon. -/
def ended (service : InputService) : Bool := service.history.foldl endedAfter false

variable {service next last : InputService}

theorem ended_record (effect : Effect) :
    (service.record effect).ended = endedAfter service.ended effect := by
  simp [ended, record]

theorem inside_record (effect : Effect) :
    HeartbeatsInside (service.record effect).history ↔
      HeartbeatsInside service.history ∧ (effect.Heartbeat → service.ended = false) :=
  throughout_concat

/-! ## What has nothing to do with heartbeats -/

/-- What lies between the two has nothing to do with heartbeats or the session. -/
structure Aside (service next : InputService) : Prop where
  entry : next.entry .heartbeat = service.entry .heartbeat
  ended : next.ended = service.ended
  inside : HeartbeatsInside next.history ↔ HeartbeatsInside service.history

theorem Aside.refl (service : InputService) : service.Aside service := ⟨rfl, rfl, Iff.rfl⟩

theorem Aside.trans (first : service.Aside next) (second : next.Aside last) :
    service.Aside last where
  entry := second.entry.trans first.entry
  ended := second.ended.trans first.ended
  inside := second.inside.trans first.inside

theorem aside_record {effect : Effect} (quiet : ¬effect.Heartbeat)
    (same : ∀ ended, endedAfter ended effect = ended) : service.Aside (service.record effect) where
  entry := rfl
  ended := by rw [ended_record, same]
  inside := by simp [inside_record, quiet]

theorem aside_setTimer (milli : Int) : service.Aside (service.setTimer .reconnect milli) where
  entry := entry_setTimer_of_ne (by decide) milli
  ended := by
    rw [setTimer_eq, ended_record]
    rfl
  inside := by
    rw [setTimer_eq, inside_record]
    exact and_iff_left (by simp [Effect.Heartbeat])

theorem aside_cancelTimer : service.Aside (service.cancelTimer .reconnect) := by
  have entry : (service.cancelTimer .reconnect).entry .heartbeat = service.entry .heartbeat :=
    entry_cancelTimer_of_ne (by decide)
  have history : (service.cancelTimer .reconnect).history = service.history :=
    history_cancelTimer .reconnect
  exact ⟨entry, by rw [ended, history, ended], by rw [history]⟩

theorem aside_asyncRead : service.Aside service.asyncRead := by
  rw [asyncRead]
  split <;> exact ⟨rfl, rfl, Iff.rfl⟩

theorem aside_asyncWrite (writing : Writing) : service.Aside (service.asyncWrite writing) := by
  rw [asyncWrite]
  split
  · have started : service.Aside
        { service with socket.writes := service.socket.writes.start writing } :=
      ⟨rfl, rfl, Iff.rfl⟩
    exact started.trans (aside_record id fun _ => rfl)
  · exact ⟨rfl, rfl, Iff.rfl⟩

theorem aside_encode (message : SessionMessage) : service.Aside (service.encode message) := by
  have encoded : service.Aside
      { service with encoder := service.encoder.encode message.packed message.type } :=
    ⟨rfl, rfl, Iff.rfl⟩
  exact encoded.trans (aside_record id fun _ => rfl)

theorem aside_doWrite : service.Aside service.doWrite := by
  have flushed : service.Aside { service with encoder := service.encoder.flush.encoder } :=
    ⟨rfl, rfl, Iff.rfl⟩
  exact (flushed.trans (aside_record id fun _ => rfl)).trans (aside_asyncWrite _)

theorem aside_sendLogon : service.Aside service.sendLogon :=
  (aside_encode logonMsg).trans aside_doWrite

theorem aside_resetEncoder : service.Aside service.resetEncoder := by
  have reset : service.Aside { service with encoder := service.encoder.reset } :=
    ⟨rfl, rfl, Iff.rfl⟩
  exact (reset.trans (aside_record id fun _ => rfl)).trans (aside_record id fun _ => rfl)

theorem aside_handleConnect (errorcode : Int) :
    service.Aside (service.handleConnect errorcode) := by
  rw [handleConnect]
  split
  · exact aside_sendLogon.trans aside_asyncRead
  · exact aside_setTimer 3000

theorem aside_connect (resolution : Resolution) : service.Aside (service.connect resolution) := by
  rw [connect.eq_def]
  split
  · cases resolution with
    | found => exact ⟨rfl, rfl, Iff.rfl⟩
    | failed code => exact aside_handleConnect _
  · exact aside_handleConnect _

theorem aside_connnectHandle (completion : Completion Bool) :
    service.Aside (service.connnectHandle completion) := by
  rcases completion with _ | code | noDelay
  · exact .refl service
  · exact aside_handleConnect _
  · rw [connnectHandle]
    split
    · split
      · exact aside_handleConnect 0
      · have destroyed : service.Aside
            { service with socket := { service.socket.close with input := false } } :=
          ⟨rfl, rfl, Iff.rfl⟩
        exact destroyed.trans (aside_handleConnect 0)
    · exact ⟨rfl, rfl, Iff.rfl⟩

theorem aside_reconnect (resolution : Resolution) (now : Int) :
    service.Aside (service.handleTimer .reconnect resolution now) := by
  have cancelled : service.Aside (service.cancelTimer .reconnect).resetEncoder :=
    aside_cancelTimer.trans aside_resetEncoder
  have reset : (service.cancelTimer .reconnect).resetEncoder.Aside
      { (service.cancelTimer .reconnect).resetEncoder with
        decoder := (service.cancelTimer .reconnect).resetEncoder.decoder.reset } :=
    ⟨rfl, rfl, Iff.rfl⟩
  exact (cancelled.trans reset).trans (aside_connect resolution)

/-! ## What ends a session, and what begins one -/

theorem ended_setTimer (timerID : TimerID) (milli : Int) :
    (service.setTimer timerID milli).ended = service.ended := by
  rw [setTimer_eq, ended_record]
  rfl

theorem inside_setTimer (milli : Int) :
    HeartbeatsInside (service.setTimer .heartbeat milli).history ↔
      HeartbeatsInside service.history ∧ service.ended = false := by
  rw [setTimer_eq, inside_record]
  simp only [Effect.Heartbeat, forall_const]
  rfl

theorem inside_sendHeartBeat :
    HeartbeatsInside service.sendHeartBeat.history ↔
      HeartbeatsInside service.history ∧ service.ended = false := by
  rw [sendHeartBeat, (aside_encode heartBeat |>.trans aside_doWrite).inside, inside_record]
  simp [Effect.Heartbeat]

theorem inside_heartbeat (resolution : Resolution) (now : Int) :
    HeartbeatsInside (service.handleTimer .heartbeat resolution now).history ↔
      HeartbeatsInside service.history ∧ service.ended = false := by
  rw [handleTimer]
  split
  · rw [inside_sendHeartBeat, inside_setTimer, ended_setTimer, and_assoc, and_self]
  · exact inside_setTimer 3000

theorem ended_heartbeat (resolution : Resolution) (now : Int) :
    (service.handleTimer .heartbeat resolution now).ended = service.ended := by
  rw [handleTimer]
  split
  · rw [sendHeartBeat, (aside_encode heartBeat |>.trans aside_doWrite).ended, ended_record]
    exact ended_setTimer .heartbeat 3000
  · exact ended_setTimer .heartbeat 3000

/-- The session is over, and the waits on the heartbeat timer are cancelled, all but those that have
ended. -/
structure Ends (service next : InputService) : Prop where
  entry : next.entry .heartbeat = (service.entry .heartbeat).cancel
  ended : next.ended = true
  inside : HeartbeatsInside next.history ↔ HeartbeatsInside service.history

theorem ends_handleError : service.Ends service.handleError where
  entry := by
    rw [handleError, (aside_setTimer 3000).entry, entry_cancelTimer, entry_record]
  ended := by
    rw [handleError, ended_setTimer, ended, history_cancelTimer, ← ended, ended_record]
    rfl
  inside := by
    rw [handleError, (aside_setTimer 3000).inside, history_cancelTimer, inside_record]
    exact and_iff_left (by simp [Effect.Heartbeat])

/-! ## Frames -/

/-- Whether the session has ended, after one more frame. -/
def endedBy (ended : Bool) (content : List UInt8) : Bool :=
  match (getUint32 content).toNat with
  | 1 => false
  | 2 => true
  | _ => ended

/-- What lies between the two is the handling of frames: expiries that are queued stay so, and where
the session is over, the timer is not armed. -/
structure Heard (service next : InputService) : Prop where
  expired : (next.entry .heartbeat).expired = (service.entry .heartbeat).expired
  inside : HeartbeatsInside next.history ↔ HeartbeatsInside service.history
  unarmed : (service.ended = true → (service.entry .heartbeat).waiting = 0) →
    next.ended = true → (next.entry .heartbeat).waiting = 0

theorem Heard.refl (service : InputService) : service.Heard service := ⟨rfl, Iff.rfl, id⟩

theorem Heard.trans (first : service.Heard next) (second : next.Heard last) :
    service.Heard last where
  expired := second.expired.trans first.expired
  inside := second.inside.trans first.inside
  unarmed := fun before => second.unarmed (first.unarmed before)

theorem handlemessage_cases (service : InputService) (content : List UInt8) :
    (service.handlemessage content = (service.record .logon).setTimer .heartbeat 3000 ∧
        ∀ ended, endedBy ended content = false) ∨
      (service.handlemessage content = service.handleError ∧
        ∀ ended, endedBy ended content = true) ∨
      service.handlemessage content = service ∧ ∀ ended, endedBy ended content = ended := by
  simp only [handlemessage, endedBy]
  rcases (getUint32 content).toNat with _ | _ | _ | type
  · exact Or.inr (Or.inr ⟨rfl, fun _ => rfl⟩)
  · exact Or.inl ⟨rfl, fun _ => rfl⟩
  · exact Or.inr (Or.inl ⟨rfl, fun _ => rfl⟩)
  · exact Or.inr (Or.inr ⟨rfl, fun _ => rfl⟩)

theorem ended_handlemessage (content : List UInt8) :
    (service.handlemessage content).ended = endedBy service.ended content := by
  rcases handlemessage_cases service content with ⟨done, by_⟩ | ⟨done, by_⟩ | ⟨done, by_⟩
  · rw [done, by_, ended_setTimer, ended_record]
    rfl
  · rw [done, by_, ends_handleError.ended]
  · rw [done, by_]

theorem heard_handlemessage (content : List UInt8) :
    service.Heard (service.handlemessage content) := by
  rcases handlemessage_cases service content with ⟨done, -⟩ | ⟨done, -⟩ | ⟨done, -⟩
  · have begun : (service.record .logon).ended = false := ended_record _
    rw [done]
    refine ⟨?_, ?_, fun _ past => ?_⟩
    · rw [entry_setTimer, entry_record]
      rfl
    · rw [inside_setTimer, inside_record]
      simp [begun, Effect.Heartbeat]
    · rw [ended_setTimer, begun] at past
      exact absurd past (by simp)
  · have ends : service.Ends service.handleError := ends_handleError
    obtain ⟨entry, -, inside⟩ := ends
    rw [done]
    exact ⟨by rw [entry]; rfl, inside, fun _ _ => by rw [entry]; rfl⟩
  · rw [done]
    exact .refl service

theorem ended_foldl_handlemessage (handed : List (List UInt8)) :
    (handed.foldl handlemessage service).ended = handed.foldl endedBy service.ended := by
  induction handed generalizing service with
  | nil => rfl
  | cons content handed ih => rw [List.foldl_cons, ih, ended_handlemessage, List.foldl_cons]

theorem heard_foldl_handlemessage (handed : List (List UInt8)) :
    service.Heard (handed.foldl handlemessage service) := by
  induction handed generalizing service with
  | nil => exact .refl service
  | cons content handed ih => exact (heard_handlemessage content).trans ih

/-- A session that is over was over before, or one of the frames has ended it. -/
theorem ended_before_or_by {handed : List (List UInt8)} {ended : Bool}
    (past : handed.foldl endedBy ended = true) :
    ended = true ∨ handed.foldl endedBy false = true := by
  cases ended with
  | true => exact Or.inl rfl
  | false => exact Or.inr past

/-- A frame that ends a session ends it whether it was over or not. -/
theorem foldl_endedBy_of_false {handed : List (List UInt8)} (ended : Bool)
    (past : handed.foldl endedBy false = true) : handed.foldl endedBy ended = true := by
  induction handed generalizing ended with
  | nil => simp at past
  | cons content handed ih =>
      rw [List.foldl_cons] at past ⊢
      rcases handlemessage_cases init content with ⟨-, by_⟩ | ⟨-, by_⟩ | ⟨-, by_⟩
      · rwa [by_] at past ⊢
      · rwa [by_] at past ⊢
      · rw [by_] at past ⊢
        exact ih ended past

/-! ## Runs -/

/-- A session has not ended, or the heartbeat timer is not armed and no expiry of it is queued. -/
structure Orderly (service : InputService) : Prop where
  inside : HeartbeatsInside service.history
  calm : service.ended = true → ¬(service.entry .heartbeat).Armed

theorem Orderly.aside (orderly : service.Orderly) (aside : service.Aside next) : next.Orderly where
  inside := aside.inside.mpr orderly.inside
  calm := by
    rw [aside.entry, aside.ended]
    exact orderly.calm

theorem Orderly.ends (orderly : service.Orderly) (ends : service.Ends next)
    (unqueued : (service.entry .heartbeat).expired = 0) : next.Orderly where
  inside := ends.inside.mpr orderly.inside
  calm := by
    rw [ends.entry]
    rintro - (waiting | expired)
    · exact absurd waiting (Nat.lt_irrefl 0)
    · exact absurd unqueued (Nat.ne_of_gt expired)

/-- Where a wait goes on or has ended, the session is on. -/
theorem Orderly.on (orderly : service.Orderly) (armed : (service.entry .heartbeat).Armed) :
    service.ended = false := by
  cases past : service.ended with
  | false => rfl
  | true => exact absurd armed (orderly.calm past)

theorem orderly_run (resolution : Resolution) : (run resolution).Orderly := by
  have fresh : init.Orderly := ⟨Throughout.nil, fun past => absurd past (by decide)⟩
  exact fresh.aside (aside_connect resolution)

/-- A read or write error is handled, or a chunk is read whose last logon or logout is a logout. -/
def Ending : Event → Prop
  | .read _ (.failed _) | .write _ _ (.failed _) => True
  | .read _ (.done received) => received.decoded.handed.foldl endedBy false = true
  | _ => False

/-- When the session is ended, no expiry of the heartbeat timer is queued. -/
def NoneQueued (service : InputService) (event : Event) : Prop :=
  Ending event → (service.entry .heartbeat).expired = 0

/-- Frames keep the order of things, if none of them ends a session while an expiry is queued. -/
theorem Orderly.frames (orderly : service.Orderly) {handed : List (List UInt8)}
    (unqueued : handed.foldl endedBy false = true → (service.entry .heartbeat).expired = 0) :
    (handed.foldl handlemessage service).Orderly := by
  have heard : service.Heard (handed.foldl handlemessage service) :=
    heard_foldl_handlemessage handed
  obtain ⟨expired, inside, unarmed⟩ := heard
  refine ⟨inside.mpr orderly.inside, ?_⟩
  rintro past (waiting | queued)
  · refine absurd (unarmed (fun before => ?_) past) (Nat.ne_of_gt waiting)
    exact Nat.eq_zero_of_not_pos fun held => orderly.calm before (Or.inl held)
  · rw [expired] at queued
    rw [ended_foldl_handlemessage] at past
    rcases ended_before_or_by past with before | byFrame
    · exact orderly.calm before (Or.inr queued)
    · exact absurd (unqueued byFrame) (Nat.ne_of_gt queued)

theorem Orderly.readHandle (orderly : service.Orderly) {completion : Completion Received}
    {superseded : Bool}
    (unqueued : Ending (.read superseded completion) → (service.entry .heartbeat).expired = 0) :
    (service.readHandle completion).Orderly := by
  cases completion with
  | aborted => exact orderly
  | failed code => exact orderly.ends ends_handleError (unqueued trivial)
  | done received =>
      have taken : service.Aside
          { service with lastReceiveTime := received.now, decoder := received.decoded.decoder } :=
        ⟨rfl, rfl, Iff.rfl⟩
      exact ((orderly.aside taken).frames unqueued).aside aside_asyncRead

theorem Orderly.writeHandle (orderly : service.Orderly) {completion : Completion Unit}
    {superseded : Bool} {writing : Writing}
    (unqueued : Ending (.write superseded writing completion) →
      (service.entry .heartbeat).expired = 0) : (service.writeHandle completion).Orderly := by
  cases completion with
  | aborted => exact orderly
  | failed code => exact orderly.ends ends_handleError (unqueued trivial)
  | done result => exact orderly

/-- What an expiry, or a handler of an aborted wait, does to the waits. -/
theorem Orderly.onTimer (orderly : service.Orderly) {timerID : TimerID} {change : Timer → Timer}
    (kept : timerID = .heartbeat → service.ended = true →
      ¬(change (service.entry .heartbeat)).Armed) :
    (service.onTimer timerID change).Orderly := by
  refine ⟨orderly.inside, fun past => ?_⟩
  cases timerID with
  | reconnect =>
      rw [entry_onTimer_of_ne (by decide)]
      exact orderly.calm past
  | heartbeat =>
      rw [entry_onTimer]
      exact kept rfl past

/-- Every event keeps the order of things, if it ends no session while an expiry is queued. -/
theorem Orderly.exec (orderly : service.Orderly) {event : Event}
    (enabled : service.Enabled event) (unqueued : service.NoneQueued event) :
    (service.exec event).Orderly := by
  obtain ⟨-, possible⟩ := enabled
  cases event with
  | connected superseded completion =>
      rw [InputService.exec]
      refine Orderly.aside ?_ (aside_connnectHandle completion)
      exact ⟨orderly.inside, orderly.calm⟩
  | refused superseded => exact ⟨orderly.inside, orderly.calm⟩
  | read superseded completion =>
      rw [InputService.exec]
      refine Orderly.readHandle ?_ unqueued
      exact ⟨orderly.inside, orderly.calm⟩
  | write superseded writing completion =>
      rw [InputService.exec]
      refine Orderly.writeHandle ?_ unqueued
      refine Orderly.aside ?_ (aside_record id fun _ => rfl)
      exact ⟨orderly.inside, orderly.calm⟩
  | expires timerID =>
      refine orderly.onTimer fun same past => ?_
      subst same
      exact absurd (Or.inl possible) (orderly.calm past)
  | timer timerID aborted resolution now =>
      cases aborted with
      | true =>
          have handled : (service.onTimer timerID (Timer.handled · true)).Orderly :=
            orderly.onTimer fun _ past => orderly.calm past
          exact handled
      | false =>
          cases timerID with
          | reconnect =>
              have handled : (service.onTimer .reconnect (Timer.handled · false)).Orderly :=
                orderly.onTimer (by simp)
              exact handled.aside (aside_reconnect resolution now)
          | heartbeat =>
              have on : (service.onTimer .heartbeat (Timer.handled · false)).ended = false :=
                orderly.on (Or.inr possible)
              have inside : HeartbeatsInside
                  (service.onTimer .heartbeat (Timer.handled · false)).history := orderly.inside
              rw [InputService.exec, timerHandle, if_neg (by simp)]
              exact ⟨(inside_heartbeat resolution now).mpr ⟨inside, on⟩, fun past =>
                absurd past (by rw [ended_heartbeat, on]; simp)⟩
  | close =>
      rw [InputService.exec]
      split <;> exact ⟨orderly.inside, orderly.calm⟩

/-! ## An expiry that is queued when the session ends -/

/-- The session has ended and an expiry is queued. -/
def Overdue (service : InputService) : Prop :=
  service.ended = true ∧ 0 < (service.entry .heartbeat).expired

theorem Overdue.aside (overdue : service.Overdue) (aside : service.Aside next) : next.Overdue := by
  rwa [Overdue, aside.entry, aside.ended]

theorem Ends.overdue (ends : service.Ends next)
    (queued : 0 < (service.entry .heartbeat).expired) : next.Overdue := by
  rw [Overdue, ends.entry]
  exact ⟨ends.ended, queued⟩

/-- A session that ends while an expiry is queued leaves it queued. -/
theorem overdue_exec {event : Event} (ending : Ending event)
    (queued : 0 < (service.entry .heartbeat).expired) : (service.exec event).Overdue := by
  rcases event with _ | _ | ⟨superseded, _ | _ | received⟩ | ⟨superseded, writing, _ | _ | _⟩ |
    _ | _ | _
  all_goals first | exact absurd ending id | skip
  · rw [exec, readHandle]
    exact ends_handleError.overdue queued
  · rw [exec, readHandle]
    refine Overdue.aside ⟨?_, ?_⟩ aside_asyncRead
    · rw [ended_foldl_handlemessage]
      exact foldl_endedBy_of_false _ ending
    · rw [(heard_foldl_handlemessage received.decoded.handed).expired]
      exact queued
  · rw [exec, writeHandle]
    exact ends_handleError.overdue queued

theorem Overdue.not_inside (overdue : service.Overdue) (resolution : Resolution) (now : Int) :
    ¬HeartbeatsInside (service.exec (.timer .heartbeat false resolution now)).history := by
  rw [exec, timerHandle, if_neg (by simp), inside_heartbeat]
  rintro ⟨-, on⟩
  have same : service.ended = false := on
  rw [overdue.1] at same
  exact absurd same (by simp)

/-! ## Results -/

/-- No heartbeat is sent and the timer is not armed outside a session, provided no expiry of it is
queued whenever a session ends; where one is, the next event can arm it. -/
theorem heartbeats_inside_of_none_queued {steps : List (InputService × Event)}
    {service : InputService} (run : Run steps service) :
    ((∀ step ∈ steps, NoneQueued step.1 step.2) → HeartbeatsInside service.history) ∧
      ∀ event, service.Enabled event → ¬service.NoneQueued event →
        (service.exec event).undefined = false →
        ∃ later, (service.exec event).Enabled later ∧
          ¬HeartbeatsInside ((service.exec event).exec later).history := by
  constructor
  · intro unqueued
    have orderly : service.Orderly := by
      refine run.keeps Orderly NoneQueued ?_ ?_ unqueued
      · rintro start ⟨resolution, rfl⟩
        exact orderly_run resolution
      · intro before event kept enabled
        exact kept.exec enabled
    exact orderly.inside
  · intro event _ queued defined
    obtain ⟨ending, queued⟩ := Classical.not_imp.mp queued
    have overdue := overdue_exec ending (Nat.pos_of_ne_zero queued)
    exact ⟨.timer .heartbeat false .found 0, ⟨defined, overdue.2⟩, overdue.not_inside .found 0⟩

/-- The service is logged on, and a read fails. -/
theorem heartbeats_inside_of_none_queued_read_error :
    ∃ (steps : List (InputService × Event)) (service : InputService), Run steps service ∧
      service.ended = true ∧ HeartbeatsInside service.history := by
  have failed := run_loggedOn.step (.read false (.failed ⟨104, by decide⟩))
    ⟨rfl, by decide, trivial, by simp⟩
  refine ⟨_, _, failed, rfl, (heartbeats_inside_of_none_queued failed).1 ?_⟩
  refine List.forall_mem_append.mpr ⟨?_, List.forall_mem_singleton.mpr fun _ => rfl⟩
  exact List.forall_mem_cons.mpr ⟨fun ending => absurd ending id,
    List.forall_mem_singleton.mpr fun _ => rfl⟩

/-- The heartbeat timer has expired when a read fails; its handler then arms it again. -/
theorem heartbeat_after_read_error :
    ∃ (steps : List (InputService × Event)) (service : InputService), Run steps service ∧
      steps.map Prod.snd = loggedOn ++ [.expires .heartbeat, .read false (.failed ⟨104, by decide⟩),
        .timer .heartbeat false .found 4000000000] ∧ ¬HeartbeatsInside service.history := by
  have expired := run_loggedOn.step (.expires .heartbeat) ⟨rfl, by decide⟩
  have failed := expired.step (.read false (.failed ⟨104, by decide⟩))
    ⟨rfl, by decide, trivial, by simp⟩
  have handled := failed.step (.timer .heartbeat false .found 4000000000) ⟨rfl, by decide⟩
  exact ⟨_, _, handled, rfl, Overdue.not_inside ⟨rfl, by decide⟩ _ _⟩

end InputService

end FlashForwarder
