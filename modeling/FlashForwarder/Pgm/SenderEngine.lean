import FlashForwarder.Pgm.ReceiverEngine
import FlashForwarder.Pgm.Wakefulness

/-!
# The sender as an engine

`PGMSender` between `Plug` and `Terminate`: it polls the four handles of its socket and keeps three
timers.  Its flags stand for what it has registered with the poller.
-/

namespace FlashForwarder

open ProgramLoop

/-- The handles of a sender. -/
inductive SenderHandle where
  /-- `handle_` -/
  | downlink
  /-- `uplink_handle_` -/
  | uplink
  /-- `rdata_notify_handle_` -/
  | rdataNotify
  /-- `pending_notify_handle_` -/
  | pendingNotify
  deriving DecidableEq

/-- The timers of a sender. -/
inductive SenderTimer where
  /-- `tx_timer_id` -/
  | tx
  /-- `rx_timer_id` -/
  | rx
  /-- `status_timter_id` -/
  | status
  deriving DecidableEq

/-- The members of `PGMSender`, its socket and what it has registered among them. -/
structure SenderEngine (σ π : Type) where
  /-- What `OutEvent` uses. -/
  sender : PGMSender σ π
  /-- `pgm_socket_` -/
  socket : PGMSocket Unit
  /-- `has_rx_timer_` -/
  hasRxTimer : Bool
  /-- `total_bytes_sent_` -/
  totalBytesSent : UInt64
  /-- `select_`, as far as this engine is concerned. -/
  poller : Poller SenderHandle SenderTimer
  /-- Whether `Plug` and `Terminate` were called. -/
  phase : EnginePhase

/-- What `pgm_send` returns, how many bytes it has sent, and the time that is left. -/
structure SendResult where
  status : IoStatus
  nbytes : Nat
  remaining : Remaining

/-- `pgm_send` sends all the bytes or none. -/
inductive SendResult.Documented (dataLen : Nat) : SendResult → Prop
  | normal (remaining : Remaining) : Documented dataLen ⟨.normal, dataLen, remaining⟩
  | rateLimited (remaining : Remaining) : Documented dataLen ⟨.rateLimited, 0, remaining⟩
  | wouldBlock (remaining : Remaining) : Documented dataLen ⟨.wouldBlock, 0, remaining⟩

/-- On the sending side `pgm_recvmsgv` gives no data. -/
structure RecvResult.Upstream (result : RecvResult Unit) : Prop where
  status : result.status = .timerPending ∨ result.status = .rateLimited ∨
    result.status = .wouldBlock
  bytesRead : result.bytesRead = 0

/-- What `Send` comes to. -/
def SendResult.sendStatus (result : SendResult) : SendStatus :=
  match result.status with
  | .normal => .normal
  | .rateLimited => .rateLimited
  | _ => .wouldBlock

namespace SenderEngine

variable {σ π : Type} (options : SenderOptions σ π) (engine : SenderEngine σ π)

/-- The handles in the order in which they are added and removed. -/
def allHandles : List SenderHandle := [.downlink, .uplink, .rdataNotify, .pendingNotify]

/-- The engine after its construction and `Init`. -/
def init (serializer : σ) (ioPipe : π) : SenderEngine σ π where
  sender := { PGMSender.init serializer ioPipe with pollout := false }
  socket := .init 0
  hasRxTimer := false
  totalBytesSent := 0
  poller := .fresh
  phase := .built

/-- `SetPollout(handle_)` -/
def setPollout : SenderEngine σ π :=
  { engine with
    poller := engine.poller.setPollout .downlink
    sender.pollout := true }

/-- `ResetPollout(handle_)` -/
def resetPollout : SenderEngine σ π :=
  { engine with
    poller := engine.poller.resetPollout .downlink
    sender.pollout := false }

/-- `Plug` -/
def plug : SenderEngine σ π :=
  let polled := { engine with
    poller := (((allHandles.foldl Poller.addHandle engine.poller).setPollin .uplink).setPollin
      .rdataNotify).setPollin .pendingNotify }.setPollout
  { polled with
    poller := polled.poller.addTimer (kStatusReportInterval * 1000) .status
    phase := .plugged }

/-- `CancelTimer(this, rx_timer_id)`, if it is set. -/
def cancelRxTimer : SenderEngine σ π :=
  if engine.hasRxTimer then
    { engine with
      poller := engine.poller.cancelTimer .rx
      hasRxTimer := false }
  else engine

/-- `CancelTimer(this, tx_timer_id)`, if it is set. -/
def cancelTxTimer : SenderEngine σ π :=
  if engine.sender.hasTxTimer then
    { engine with
      poller := engine.poller.cancelTimer .tx
      sender.hasTxTimer := false }
  else engine

/-- `Terminate`; the pipe is terminated and let go. -/
def terminate : SenderEngine σ π :=
  let engine := engine.cancelRxTimer.cancelTxTimer
  { engine with
    poller := allHandles.foldl Poller.removeHandle (engine.poller.cancelTimer .status)
    phase := .terminated }

/-- `InEvent`, where `pgm_recvmsgv` leaves this behind. -/
def inEvent (result : RecvResult Unit) (remaining : Remaining) : Option (SenderEngine σ π) := do
  let engine := engine.cancelRxTimer
  let (rc, socket) ← engine.socket.processUpstream result
  let engine := { engine with socket := socket }
  if rc = .nomem ∨ rc = .busy then
    return { engine with
      poller := engine.poller.addTimer (engine.socket.getRxTimeout remaining) .rx
      hasRxTimer := true }
  else return engine

/-- Before the packet is sent it waits for the timer no longer. -/
def resumed : SenderEngine σ π :=
  if engine.sender.hasTxTimer then engine.cancelTxTimer.setPollout else engine

/-- The end of `OutEvent`: the packet is sent, or is kept for later; `pgmSend` is what the call of
`pgm_send` for so many bytes comes to. -/
def send (pgmSend : Nat → SendResult) : Option (Option (List UInt8) × SenderEngine σ π) := do
  let engine := engine.resumed
  let result := pgmSend engine.sender.writeSize
  let (rc, nbytes, socket) ←
    engine.socket.send engine.sender.writeSize result.status result.nbytes
  let engine := { engine with socket := socket }
  if nbytes = engine.sender.writeSize then
    return (some engine.sender.outBuffer,
      { engine with sender :=
        { engine.sender with
          totalSent := engine.sender.totalSent + UInt64.ofNat engine.sender.writeSize
          writeSize := 0 } })
  else if nbytes = 0 then
    match rc with
    | .nomem =>
        let armed :=
          { engine with
            poller := engine.poller.addTimer (engine.socket.getTxTimeout result.remaining) .tx }
        return (none, { armed.resetPollout with sender.hasTxTimer := true })
    | .busy => return (none, engine)
    | _ => none
  else none

/-- `OutEvent`, unless it takes more passes than `fuel` to fill a packet. -/
def outEvent (fuel : Nat) (pgmSend : Nat → SendResult) : Option (Sent × SenderEngine σ π) :=
  if engine.sender.writeSize = 0 then do
    let filling ← run (PGMSender.pass options) fuel (PGMSender.start options engine.sender)
    let engine := { engine with sender := filling.sender }
    if filling.payload = [] then
      return (⟨filling.batches, none⟩, engine.resetPollout)
    else
      let (packet, engine) ← { engine with sender := PGMSender.packed filling }.send pgmSend
      return (⟨filling.batches, packet⟩, engine)
  else do
    let (packet, engine) ← engine.send pgmSend
    return (⟨[], packet⟩, engine)

/-- `RestartOutput` -/
def restartOutput (fuel : Nat) (pgmSend : Nat → SendResult) :
    Option (Sent × SenderEngine σ π) :=
  engine.setPollout.outEvent options fuel pgmSend

/-- `TimerEvent(tx_timer_id)` -/
def txTimerEvent (fuel : Nat) (pgmSend : Nat → SendResult) :
    Option (Sent × SenderEngine σ π) :=
  { engine with sender.hasTxTimer := false }.setPollout.outEvent options fuel pgmSend

/-- `TimerEvent(rx_timer_id)` -/
def rxTimerEvent (result : RecvResult Unit) (remaining : Remaining) :
    Option (SenderEngine σ π) :=
  { engine with hasRxTimer := false }.inEvent result remaining

/-- `TimerEvent(status_timter_id)` -/
def statusTimerEvent : SenderEngine σ π :=
  { engine with
    totalBytesSent := engine.sender.totalSent
    poller := engine.poller.addTimer (kStatusReportInterval * 1000) .status }

/-! ## With the pushing thread -/

/-- What the poller calls, and the commands; `arrivals` is what the pushing thread will do before
each `Read`. -/
inductive Event where
  /-- `Plug` -/
  | plug
  /-- `OutEvent`, when a handle can be written to. -/
  | output (handle : SenderHandle) (arrivals : List (List PushStep)) (pgmSend : Nat → SendResult)
  /-- `InEvent`, when a handle can be read. -/
  | input (handle : SenderHandle) (result : RecvResult Unit) (remaining : Remaining)
  /-- `RestartOutput` -/
  | restartOutput (arrivals : List (List PushStep)) (pgmSend : Nat → SendResult)
  /-- `TimerEvent(tx_timer_id)` -/
  | txTimer (arrivals : List (List PushStep)) (pgmSend : Nat → SendResult)
  /-- `TimerEvent(rx_timer_id)` -/
  | rxTimer (result : RecvResult Unit) (remaining : Remaining)
  /-- `TimerEvent(status_timter_id)` -/
  | statusTimer
  /-- `Terminate` -/
  | terminate
  /-- A step of the pushing thread between two events. -/
  | pushes (step : PushStep)

/-- OpenPGM does as documented. -/
def Event.Documented : Event → Prop
  | .output _ _ pgmSend | .restartOutput _ pgmSend | .txTimer _ pgmSend =>
      ∀ dataLen, (pgmSend dataLen).Documented dataLen
  | .input _ result _ | .rxTimer result _ => result.Upstream
  | .plug | .statusTimer | .terminate | .pushes _ => True

end SenderEngine

namespace SenderEngine

variable {σ : Type} (options : SenderOptions σ Feed) (engine : SenderEngine σ Feed)

/-- The pushing thread will do this meanwhile. -/
def meanwhile (arrivals : List (List PushStep)) : SenderEngine σ Feed :=
  { engine with sender.ioPipe := { engine.sender.ioPipe with arrivals := arrivals } }

/-- Nothing is seen of an event. -/
def unseen : Option (SenderEngine σ Feed) → Option (Option Sent × SenderEngine σ Feed) :=
  Option.map fun next => (none, next)

/-- Something is seen of it. -/
def witnessed : Option (Sent × SenderEngine σ Feed) → Option (Option Sent × SenderEngine σ Feed) :=
  Option.map fun (seen, next) => (some seen, next)

/-- A command has arrived. -/
def received : SenderEngine σ Feed :=
  { engine with
    sender.ioPipe := { engine.sender.ioPipe with restarts := engine.sender.ioPipe.restarts - 1 } }

/-- What an event leads to; there is no result if an assertion fails or the fuel runs out. -/
def exec (fuel : Nat) : Event → Option (Option Sent × SenderEngine σ Feed)
  | .plug => unseen (some engine.plug)
  | .output _ arrivals pgmSend =>
      witnessed ((engine.meanwhile arrivals).outEvent options fuel pgmSend)
  | .input _ result remaining => unseen (engine.inEvent result remaining)
  | .restartOutput arrivals pgmSend =>
      witnessed ((engine.received.meanwhile arrivals).restartOutput options fuel pgmSend)
  | .txTimer arrivals pgmSend =>
      let fired := { engine with poller := engine.poller.fire .tx }
      witnessed ((fired.meanwhile arrivals).txTimerEvent options fuel pgmSend)
  | .rxTimer result remaining =>
      unseen ({ engine with poller := engine.poller.fire .rx }.rxTimerEvent result remaining)
  | .statusTimer =>
      unseen (some { engine with poller := engine.poller.fire .status }.statusTimerEvent)
  | .terminate => unseen (some engine.terminate)
  | .pushes step =>
      unseen (some { engine with sender.ioPipe := engine.sender.ioPipe.act step })

/-- What the poller calls is registered.  The pushing thread sends the commands, which arrive in
order: those to restart behind the one to plug, and ahead of the one to terminate. -/
def Enabled : Event → Prop
  | .plug => engine.phase = .built
  | .output handle _ _ => engine.poller.pollout handle = true
  | .input handle _ _ => engine.poller.pollin handle = true
  | .restartOutput _ _ => engine.phase = .plugged ∧ 0 < engine.sender.ioPipe.restarts
  | .txTimer _ _ => .tx ∈ engine.poller.timers
  | .rxTimer _ _ => .rx ∈ engine.poller.timers
  | .statusTimer => .status ∈ engine.poller.timers
  | .terminate => engine.phase = .plugged ∧ engine.sender.ioPipe.restarts = 0
  | .pushes _ => engine.phase ≠ .terminated

end SenderEngine

/-- The lives of a sender. -/
inductive SenderEngine.Lives {σ : Type} (options : SenderOptions σ Feed) :
    SenderEngine σ Feed → Prop
  | built (serializer : σ) (feed : Feed) : Lives options (init serializer feed)
  | event {engine next : SenderEngine σ Feed} {fuel : Nat} {seen : Option Sent} (event : Event) :
      Lives options engine → engine.Enabled event →
      engine.exec options fuel event = some (seen, next) → Lives options next

/-! ## What `OutEvent` does to the flags -/

namespace SenderEngine

section

variable {σ π : Type} {options : SenderOptions σ π} {engine next : SenderEngine σ π}

/-- What does not depend on the packet that is being filled. -/
def SameFlags (before after : PGMSender σ π) : Prop :=
  after.pollout = before.pollout ∧ after.hasTxTimer = before.hasTxTimer ∧
    after.writeSize = before.writeSize

theorem gather_sameFlags (options : SenderOptions σ π) (count : Nat)
    (filling : PGMSender.Filling σ π) :
    SameFlags filling.sender (PGMSender.gather options count filling).1.sender := by
  induction count generalizing filling with
  | zero => exact ⟨rfl, rfl, rfl⟩
  | succ count ih =>
      rw [PGMSender.gather]
      rcases options.read filling.sender.ioPipe with ⟨_ | msg, ioPipe⟩
      · exact ⟨rfl, rfl, rfl⟩
      · exact ih (PGMSender.take options filling msg ioPipe)

theorem copy_sameFlags (options : SenderOptions σ π) (filling : PGMSender.Filling σ π)
    (batch : List UInt8) :
    SameFlags filling.sender (PGMSender.copy options filling batch).sender := by
  rw [PGMSender.copy]
  dsimp only
  split <;> exact ⟨rfl, rfl, rfl⟩

/-- A packet is filled without a look at the flags. -/
theorem pass_sameFlags (sender : PGMSender σ π) (filling : PGMSender.Filling σ π)
    (same : SameFlags sender filling.sender) :
    (PGMSender.pass options filling).Keeps (fun filling => SameFlags sender filling.sender)
      fun filling => SameFlags sender filling.sender := by
  have trans : ∀ {mid last : PGMSender σ π}, SameFlags sender mid → SameFlags mid last →
      SameFlags sender last := fun ⟨polls, timer, size⟩ ⟨polls', timer', size'⟩ =>
    ⟨polls'.trans polls, timer'.trans timer, size'.trans size⟩
  rw [PGMSender.pass]
  split
  · split
    · exact trans same (copy_sameFlags options filling _)
    · have gathered := trans same (gather_sameFlags options kMaxMessagePerTime filling)
      generalize PGMSender.gather options kMaxMessagePerTime filling = result at *
      obtain ⟨filling', available⟩ := result
      cases available with
      | true => exact trans gathered (copy_sameFlags options
          { filling' with
            sender := { filling'.sender with
              serializer := (options.flush filling'.sender.serializer).2
              current := some (options.flush filling'.sender.serializer).1 }
            batches := filling'.batches ++ [(options.flush filling'.sender.serializer).1] } _)
      | false => exact gathered
  · exact same

theorem filled_sameFlags {fuel : Nat} {sender : PGMSender σ π} {filling : PGMSender.Filling σ π}
    (ran : run (PGMSender.pass options) fuel (PGMSender.start options sender) = some filling) :
    SameFlags sender filling.sender := by
  have begun : SameFlags sender (PGMSender.start options sender).sender := ⟨rfl, rfl, rfl⟩
  exact Leaves.keeps (pass_sameFlags sender) begun ⟨fuel, ran⟩

/-! ## What is registered -/

/-- The handles that are polled for input. -/
def polledIn : SenderHandle → Bool
  | .downlink => false
  | .uplink | .rdataNotify | .pendingNotify => true

/-- The handles that are polled for output, when the flag of the downlink says so. -/
def polledOut (pollout : Bool) : SenderHandle → Bool
  | .downlink => pollout
  | .uplink | .rdataNotify | .pendingNotify => false

/-- The timers that are set, when their flags say so. -/
def timersSet (hasTxTimer hasRxTimer : Bool) : List SenderTimer :=
  (if hasTxTimer then [.tx] else []) ++ (if hasRxTimer then [.rx] else []) ++ [.status]

/-- What is registered fits the flags. -/
def Fits (engine : SenderEngine σ π) : Prop :=
  engine.poller.Registered polledIn (polledOut engine.sender.pollout)
    (timersSet engine.sender.hasTxTimer engine.hasRxTimer)

/-- The status of the last call of `pgm_recvmsgv` tells how long to wait. -/
def Waiting (engine : SenderEngine σ π) : Prop :=
  engine.socket.lastRxStatus = .rateLimited ∨ engine.socket.lastRxStatus = .timerPending

/-- A packet waits for the send timer, and meanwhile the sender does not poll for output. -/
def Held (sender : PGMSender σ π) : Prop :=
  sender.hasTxTimer = true → sender.pollout = false ∧ sender.writeSize ≠ 0

theorem update_polledOut (pollout value : Bool) :
    Function.update (polledOut pollout) .downlink value = polledOut value := by
  funext handle
  cases handle <;> rfl

theorem Fits.setPollout (fits : engine.Fits) : engine.setPollout.Fits := by
  have polled := Poller.Registered.setPollout fits .downlink
  rwa [update_polledOut] at polled

theorem Fits.resetPollout (fits : engine.Fits) : engine.resetPollout.Fits := by
  have polled := Poller.Registered.resetPollout fits .downlink
  rwa [update_polledOut] at polled

/-- The order in which timers were set does not matter. -/
theorem timersSet_rx (hasTxTimer : Bool) :
    (SenderTimer.rx :: timersSet hasTxTimer false).Perm (timersSet hasTxTimer true) := by
  cases hasTxTimer
  · exact List.Perm.refl _
  · exact List.Perm.swap ..

theorem Fits.cancelRxTimer (fits : engine.Fits) :
    engine.cancelRxTimer.Fits ∧ engine.cancelRxTimer.hasRxTimer = false := by
  rw [SenderEngine.cancelRxTimer]
  split
  · rename_i set
    rw [Fits, set] at fits
    exact ⟨(fits.congr (timersSet_rx _).symm).cancelTimer, rfl⟩
  · rename_i unset
    exact ⟨fits, Bool.eq_false_of_not_eq_true unset⟩

theorem Fits.cancelTxTimer (fits : engine.Fits) :
    engine.cancelTxTimer.Fits ∧ engine.cancelTxTimer.sender.hasTxTimer = false := by
  rw [SenderEngine.cancelTxTimer]
  split
  · rename_i set
    rw [Fits, set] at fits
    exact ⟨fits.cancelTimer, rfl⟩
  · rename_i unset
    exact ⟨fits, Bool.eq_false_of_not_eq_true unset⟩

/-! ## Sending -/

/-- What the sending of packets leaves alone. -/
def SameInput (before after : SenderEngine σ π) : Prop :=
  after.hasRxTimer = before.hasRxTimer ∧
    after.socket.lastRxStatus = before.socket.lastRxStatus ∧ after.phase = before.phase

theorem sender_resumed : engine.resumed.sender =
    if engine.sender.hasTxTimer then
      { engine.sender with pollout := true, hasTxTimer := false }
    else engine.sender := by
  rw [resumed, cancelTxTimer]
  split <;> rfl

theorem sameInput_resumed : SameInput engine engine.resumed := by
  rw [resumed, cancelTxTimer]
  split <;> exact ⟨rfl, rfl, rfl⟩

theorem writeSize_resumed : engine.resumed.sender.writeSize = engine.sender.writeSize := by
  rw [sender_resumed]
  split <;> rfl

theorem Fits.resumed (fits : engine.Fits) :
    engine.resumed.Fits ∧ engine.resumed.sender.hasTxTimer = false := by
  rw [SenderEngine.resumed]
  split
  · obtain ⟨cancelled, unset⟩ := fits.cancelTxTimer
    exact ⟨cancelled.setPollout, unset⟩
  · rename_i unset
    exact ⟨fits, Bool.eq_false_of_not_eq_true unset⟩

theorem Fits.armTxTimer (fits : engine.Fits) (unset : engine.sender.hasTxTimer = false)
    {timeout : Int} (later : 0 ≤ timeout) :
    Fits { ({ engine with poller := engine.poller.addTimer timeout .tx }).resetPollout with
      sender := { engine.sender with
        pollout := false
        hasTxTimer := true } } := by
  rw [Fits, unset] at fits
  have polled := (fits.addTimer later .tx).resetPollout .downlink
  rwa [update_polledOut] at polled

/-- What a call of `pgm_send` can come to, if no assertion fails. -/
theorem send_cases {pgmSend : Nat → SendResult} {packet : Option (List UInt8)}
    (waiting : engine.sender.writeSize ≠ 0) (done : engine.send pgmSend = some (packet, next)) :
    ((pgmSend engine.sender.writeSize).sendStatus = .normal ∧
        packet = some engine.resumed.sender.outBuffer ∧
        next = { engine.resumed with
          socket := { engine.resumed.socket with lastTxStatus := .normal }
          sender := { engine.resumed.sender with
            totalSent := engine.sender.totalSent + UInt64.ofNat engine.sender.writeSize
            writeSize := 0 } }) ∨
      ((pgmSend engine.sender.writeSize).sendStatus = .rateLimited ∧ packet = none ∧
        ∃ timeout, 0 ≤ timeout ∧ next =
          { ({ engine.resumed with
              socket := { engine.resumed.socket with lastTxStatus := .rateLimited }
              poller := engine.resumed.poller.addTimer timeout .tx } : SenderEngine σ π
            ).resetPollout with
            sender := { engine.resumed.sender with
              pollout := false
              hasTxTimer := true } }) ∨
      ((pgmSend engine.sender.writeSize).sendStatus = .wouldBlock ∧ packet = none ∧
        next = { engine.resumed with
          socket := { engine.resumed.socket with lastTxStatus := .wouldBlock } }) := by
  have total : engine.resumed.sender.totalSent = engine.sender.totalSent := by
    rw [sender_resumed]
    split <;> rfl
  rw [SenderEngine.send] at done
  simp only [writeSize_resumed, total, PGMSocket.send] at done
  generalize pgmSend engine.sender.writeSize = result at *
  obtain ⟨status, nbytes, remaining⟩ := result
  by_cases positive : 0 < nbytes
  · rw [if_pos positive] at done
    by_cases all : status = .normal ∧ nbytes = engine.sender.writeSize
    · obtain ⟨rfl, rfl⟩ := all
      simp at done
      exact Or.inl ⟨rfl, done.1.symm, done.2.symm⟩
    · simp [all] at done
  · rw [if_neg positive] at done
    have never : ¬0 = engine.sender.writeSize := Ne.symm waiting
    cases status with
    | rateLimited =>
        simp [never] at done
        refine Or.inr (Or.inl ⟨rfl, done.1.symm, _, PGMSocket.getTxTimeout_nonneg ?_, done.2.symm⟩)
        rfl
    | wouldBlock =>
        simp [never] at done
        exact Or.inr (Or.inr ⟨rfl, done.1.symm, done.2.symm⟩)
    | _ => simp at done

/-- What is registered fits the flags, and the flags fit each other and the socket. -/
structure Polling (engine : SenderEngine σ π) : Prop where
  fits : engine.Fits
  held : Held engine.sender
  waiting : engine.hasRxTimer = true ↔ engine.Waiting

/-- What `OutEvent` leaves alone says whether there is something to wait for. -/
theorem SameInput.waiting (same : SameInput engine next)
    (waiting : engine.hasRxTimer = true ↔ engine.Waiting) :
    next.hasRxTimer = true ↔ next.Waiting := by
  rw [same.1, Waiting, same.2.1]
  exact waiting

/-- A packet is sent as the plain sender does, and the registrations follow. -/
theorem Polling.send (engine : SenderEngine σ π) (fits : engine.Fits)
    (waiting : engine.hasRxTimer = true ↔ engine.Waiting)
    {pgmSend : Nat → SendResult} {packet : Option (List UInt8)}
    (filled : engine.sender.writeSize ≠ 0) (done : engine.send pgmSend = some (packet, next)) :
    PGMSender.send engine.sender (pgmSend engine.sender.writeSize).sendStatus =
        (packet, next.sender) ∧
      next.Polling ∧ next.phase = engine.phase := by
  obtain ⟨resumed, unset⟩ := fits.resumed
  obtain ⟨timer, status, phase⟩ := engine.sameInput_resumed
  have sender := engine.sender_resumed
  have size := engine.writeSize_resumed
  have waits := SameInput.waiting ⟨timer, status, phase⟩ waiting
  obtain ⟨sent, rfl, rfl⟩ | ⟨sent, rfl, timeout, later, rfl⟩ | ⟨sent, rfl, rfl⟩ :=
    send_cases filled done
  · refine ⟨?_, ⟨resumed, fun set => absurd set (by simp [unset]), waits⟩, phase⟩
    have total : engine.resumed.sender.totalSent = engine.sender.totalSent := by
      rw [sender]
      split <;> rfl
    unfold PGMSender.send
    rw [sent, ← sender]
    dsimp only
    rw [total, size]
  · refine ⟨?_, ⟨resumed.armTxTimer unset later, fun _ => ⟨rfl, by dsimp only; omega⟩, waits⟩,
      phase⟩
    unfold PGMSender.send
    rw [sent, ← sender]
  · refine ⟨?_, ⟨resumed, fun set => absurd set (by simp [unset]), waits⟩, phase⟩
    unfold PGMSender.send
    rw [sent, ← sender]

/-- `OutEvent` does what it does of the plain sender, and the registrations follow. -/
theorem Polling.outEvent (engine : SenderEngine σ π) (fits : engine.Fits)
    (waiting : engine.hasRxTimer = true ↔ engine.Waiting)
    (filled : engine.sender.hasTxTimer = true → engine.sender.writeSize ≠ 0) {fuel : Nat}
    {pgmSend : Nat → SendResult} {seen : Sent}
    (done : engine.outEvent options fuel pgmSend = some (seen, next)) :
    (∃ status, engine.sender.outEvent options fuel status = some (seen, next.sender)) ∧
      next.Polling ∧ next.phase = engine.phase := by
  rw [SenderEngine.outEvent] at done
  split at done
  · rename_i ready
    obtain ⟨filling, ran, ended⟩ := Option.bind_eq_some_iff.mp done
    obtain ⟨polls, timer, size⟩ := filled_sameFlags ran
    have fits' : Fits { engine with sender := filling.sender } := by
      rw [Fits] at fits ⊢
      simpa only [polls, timer] using fits
    have unset : filling.sender.hasTxTimer = false := by
      rw [timer]
      by_contra set
      exact filled (by simpa using set) ready
    dsimp only at ended
    split at ended
    · rename_i empty
      obtain ⟨rfl, rfl⟩ := Prod.mk.inj (Option.some_inj.mp ended)
      refine ⟨⟨.normal, ?_⟩,
        ⟨fits'.resetPollout, fun set => absurd (unset.symm.trans set) (by simp), waiting⟩, rfl⟩
      simp [PGMSender.outEvent, ready, ran, empty, SenderEngine.resetPollout]
    · rename_i some_bytes
      obtain ⟨⟨packet, engine'⟩, sent, same⟩ := Option.bind_eq_some_iff.mp ended
      obtain ⟨rfl, rfl⟩ := Prod.mk.inj (Option.some_inj.mp same)
      obtain ⟨plain, polling, phase⟩ := Polling.send
        { engine with sender := PGMSender.packed filling } fits' waiting
        (PGMSender.writeSize_packed filling) sent
      refine ⟨⟨(pgmSend (PGMSender.packed filling).writeSize).sendStatus, ?_⟩, polling, phase⟩
      simp only [PGMSender.outEvent, if_pos ready, ran, Option.bind_eq_bind, Option.bind_some,
        if_neg some_bytes, plain]
      rfl
  · rename_i packed
    obtain ⟨⟨packet, engine'⟩, sent, same⟩ := Option.bind_eq_some_iff.mp done
    obtain ⟨rfl, rfl⟩ := Prod.mk.inj (Option.some_inj.mp same)
    obtain ⟨plain, polling, phase⟩ := Polling.send engine fits waiting packed sent
    refine ⟨⟨(pgmSend engine.sender.writeSize).sendStatus, ?_⟩, polling, phase⟩
    rw [PGMSender.outEvent, if_neg packed, plain]
    rfl

/-- `InEvent` leaves the receive timer set just if there is something to wait for. -/
theorem Polling.inEvent (fits : engine.Fits) (held : Held engine.sender)
    {result : RecvResult Unit} {remaining : Remaining}
    (done : engine.inEvent result remaining = some next) :
    next.Polling ∧ next.sender = engine.sender ∧ next.phase = engine.phase := by
  have kept : engine.cancelRxTimer.sender = engine.sender ∧
      engine.cancelRxTimer.phase = engine.phase := by
    rw [SenderEngine.cancelRxTimer]
    split <;> exact ⟨rfl, rfl⟩
  obtain ⟨cancelled, unset⟩ := fits.cancelRxTimer
  rw [SenderEngine.inEvent] at done
  generalize engine.cancelRxTimer = engine' at *
  obtain ⟨⟨rc, socket⟩, heard, ended⟩ := Option.bind_eq_some_iff.mp done
  have told : rc = .nomem ∨ rc = .busy ↔
      socket.lastRxStatus = .rateLimited ∨ socket.lastRxStatus = .timerPending := by
    rw [PGMSocket.processUpstream] at heard
    split at heard
    · split at heard
      case h_4 => cases heard
      all_goals
        obtain ⟨rfl, rfl⟩ := Prod.mk.inj (Option.some_inj.mp heard)
        simp [*]
    · cases heard
  dsimp only at ended
  split at ended
  · rename_i code
    obtain rfl := Option.some_inj.mp ended
    refine ⟨⟨?_, kept.1 ▸ held, fun _ => told.mp code, fun _ => rfl⟩, kept⟩
    have armed := Poller.Registered.addTimer cancelled
      (PGMSocket.getRxTimeout_nonneg remaining (told.mp code)) .rx
    rw [unset] at armed
    exact armed.congr (timersSet_rx _)
  · rename_i code
    obtain rfl := Option.some_inj.mp ended
    refine ⟨⟨cancelled, kept.1 ▸ held, ?_⟩, kept⟩
    have quiet := mt told.mpr code
    simpa [unset, Waiting] using quiet

end

end SenderEngine

/-! ## A packet is filled in a finite number of passes -/

namespace Feed

variable (feed : Feed)

/-- How many messages can be read in the handler that runs, at the most. -/
def unread : Nat := feed.flushed.length + (feed.arrivals.map List.length).sum

variable {feed}

theorem foldl_act (steps : List PushStep) (feed : Feed) :
    (steps.foldl act feed).flushed.length ≤ feed.flushed.length + steps.length ∧
      (steps.foldl act feed).arrivals = feed.arrivals := by
  induction steps generalizing feed with
  | nil => exact ⟨Nat.le_refl _, rfl⟩
  | cons step steps ih =>
      have once : (feed.act step).flushed.length ≤ feed.flushed.length + 1 ∧
          (feed.act step).arrivals = feed.arrivals := by
        cases step <;> rw [act] <;> split <;> simp
      obtain ⟨more, same⟩ := ih (feed.act step)
      refine ⟨?_, same.trans once.2⟩
      simp only [List.foldl_cons, List.length_cons]
      omega

/-- A message that is read is read once. -/
theorem unread_read : feed.read.2.unread + feed.read.1.toList.length ≤ feed.unread := by
  obtain ⟨more, same⟩ := foldl_act (feed.arrivals.headD [])
    { feed with arrivals := feed.arrivals.tail }
  have total : (feed.arrivals.headD []).length + (feed.arrivals.tail.map List.length).sum =
      (feed.arrivals.map List.length).sum := by
    cases feed.arrivals <;> simp
  rw [read]
  generalize List.foldl act { feed with arrivals := feed.arrivals.tail }
    (feed.arrivals.headD []) = arrived at *
  dsimp only at more same
  cases messages : arrived.flushed with
  | nil =>
      simp only [take, messages, unread, same, List.length_nil, Option.toList]
      omega
  | cons message left =>
      rw [messages, List.length_cons] at more
      simp only [take, messages, unread, same, Option.toList, List.length_singleton]
      omega

end Feed

namespace PGMSender

variable {σ : Type} {options : FedOptions σ}

theorem unread_gather (options : FedOptions σ) (count : Nat) (filling : Filling σ Feed) :
    (gather options.toSenderOptions count filling).1.sender.ioPipe.unread +
        (if (gather options.toSenderOptions count filling).2 then 1 else 0) ≤
      filling.sender.ioPipe.unread := by
  induction count generalizing filling with
  | zero => exact Nat.le_refl _
  | succ count ih =>
      have once := filling.sender.ioPipe.unread_read
      rw [← options.read_eq] at once
      rw [gather]
      generalize options.read filling.sender.ioPipe = result at once
      obtain ⟨_ | msg, ioPipe⟩ := result
      · exact once
      · have rest := ih (take options.toSenderOptions filling msg ioPipe)
        have taken : (take options.toSenderOptions filling msg ioPipe).sender.ioPipe = ioPipe := rfl
        rw [taken] at rest
        simp only [Option.toList, List.length_singleton] at once
        dsimp only
        split at rest <;> simp only [if_true] <;> omega

/-- What is left to do: messages to read, room to fill, and a batch to finish. -/
def weight (options : FedOptions σ) (filling : Filling σ Feed) : Nat :=
  2 * filling.sender.ioPipe.unread +
    2 * (room options.toSenderOptions - filling.payload.length) +
    (if filling.sender.current.isSome then 1 else 0)

/-- A pass that copies either copies some bytes or has come to the end of the batch. -/
theorem weight_copy {filling : Filling σ Feed} {batch : List UInt8}
    (inside : filling.payload.length < room options.toSenderOptions)
    (current : filling.sender.current = some batch) :
    weight options (copy options.toSenderOptions filling batch) < weight options filling := by
  have fits : min (batch.length - filling.sender.currentOffset)
      (room options.toSenderOptions - filling.payload.length) ≤
        batch.length - filling.sender.currentOffset := Nat.min_le_left ..
  rw [weight, weight, copy, current]
  dsimp only
  split
  · simp only [List.length_append, List.length_take, List.length_drop, Option.isSome_none,
      Option.isSome_some, if_true, if_false, Bool.false_eq_true]
    omega
  · simp only [List.length_append, List.length_take, List.length_drop, current,
      Option.isSome_some, if_true]
    omega

/-- Every pass that goes round leaves less to do. -/
theorem weight_again {filling next : Filling σ Feed}
    (passed : pass options.toSenderOptions filling = .again next) :
    weight options next < weight options filling := by
  rw [pass] at passed
  split at passed
  · rename_i inside
    split at passed
    · rename_i current
      obtain rfl := Pass.again.inj passed
      exact weight_copy inside current
    · rename_i current
      have less := unread_gather options kMaxMessagePerTime filling
      obtain ⟨serializer, ioPipe, available, gathered⟩ := gather_spec kMaxMessagePerTime inside
      rw [gathered] at passed less
      cases available with
      | false => cases passed
      | true =>
          obtain rfl := Pass.again.inj passed
          simp only [if_true] at less
          refine Nat.lt_trans (weight_copy inside rfl) ?_
          simp only [weight, current, Option.isSome_some, Option.isSome_none, if_true, if_false,
            Bool.false_eq_true]
          omega
  · cases passed

/-- A packet is filled in a finite number of passes, whatever the pushing thread does meanwhile. -/
theorem exists_filled (options : FedOptions σ) (sender : PGMSender σ Feed) :
    ∃ filling, Leaves (pass options.toSenderOptions) (start options.toSenderOptions sender)
      filling :=
  exists_leaves_of_variant (fun _ => True) (weight options)
    (fun _ _ _ passed => ⟨trivial, weight_again passed⟩) trivial

end PGMSender

/-! ## A whole life -/

namespace SenderEngine

variable {σ : Type} {options : FedOptions σ} {engine next : SenderEngine σ Feed}

/-- What holds of a sender in each phase of its life. -/
inductive Follows (options : FedOptions σ) : SenderEngine σ Feed → Prop
  | built (serializer : σ) (feed : Feed) : Follows options (init serializer feed)
  | plugged {engine : SenderEngine σ Feed} : engine.phase = .plugged → engine.Polling →
      PGMSender.Reachable options engine.sender → Follows options engine
  | terminated {engine : SenderEngine σ Feed} : engine.phase = .terminated →
      engine.poller.Released → Follows options engine

/-- A sender that is not plugged has nothing registered. -/
theorem Follows.released (follows : Follows options engine) (other : engine.phase ≠ .plugged) :
    engine.poller.Released := by
  cases follows with
  | built serializer feed => exact Poller.released_fresh
  | plugged phase => exact absurd phase other
  | terminated _ released => exact released

theorem Follows.polling (follows : Follows options engine) (plugged : engine.phase = .plugged) :
    engine.Polling ∧ PGMSender.Reachable options engine.sender := by
  cases follows with
  | built serializer feed => exact absurd plugged nofun
  | plugged _ polling reachable => exact ⟨polling, reachable⟩
  | terminated phase => exact absurd (phase.symm.trans plugged) nofun

/-- Only what a plugged sender has registered is called. -/
theorem Follows.plugged_of_pollout (follows : Follows options engine) {handle : SenderHandle}
    (polled : engine.poller.pollout handle = true) : engine.phase = .plugged := by
  by_contra other
  simp [(follows.released other).pollout handle] at polled

theorem Follows.plugged_of_pollin (follows : Follows options engine) {handle : SenderHandle}
    (polled : engine.poller.pollin handle = true) : engine.phase = .plugged := by
  by_contra other
  simp [(follows.released other).pollin handle] at polled

theorem Follows.plugged_of_timer (follows : Follows options engine) {timer : SenderTimer}
    (set : timer ∈ engine.poller.timers) : engine.phase = .plugged := by
  by_contra other
  simp [(follows.released other).timers] at set

theorem polling_plug (options : FedOptions σ) (serializer : σ) (feed : Feed) :
    (init serializer feed).plug.Polling ∧
      PGMSender.Reachable options (init serializer feed).plug.sender := by
  have added := (Poller.released_fresh (η := SenderHandle) (ι := SenderTimer)).addHandles
    allHandles (by decide) (by rintro (_ | _ | _ | _) <;> decide)
  have polled := ((((added.setPollin .uplink).setPollin .rdataNotify).setPollin
    .pendingNotify).setPollout .downlink).addTimer
      (by decide : (0 : Int) ≤ kStatusReportInterval * 1000) .status
  have ins : Function.update (Function.update (Function.update (fun _ => false)
      SenderHandle.uplink true) .rdataNotify true) .pendingNotify true = polledIn := by
    funext handle
    cases handle <;> rfl
  have outs : Function.update (fun _ => false) SenderHandle.downlink true = polledOut true := by
    funext handle
    cases handle <;> rfl
  rw [ins, outs] at polled
  refine ⟨⟨polled, nofun, ?_⟩, .plugged serializer feed⟩
  simp [plug, setPollout, init, Waiting, PGMSocket.init]

theorem released_terminate (fits : engine.Fits) : engine.terminate.poller.Released := by
  obtain ⟨first, unset⟩ := fits.cancelRxTimer
  obtain ⟨second, unset'⟩ := first.cancelTxTimer
  have same : engine.cancelRxTimer.cancelTxTimer.hasRxTimer = engine.cancelRxTimer.hasRxTimer := by
    rw [cancelTxTimer]
    split <;> rfl
  rw [Fits, unset', same, unset] at second
  exact second.cancelTimer.removeHandles (by decide) (by rintro (_ | _ | _ | _) <;> decide)

theorem Fits.fire_tx (fits : engine.Fits) (set : .tx ∈ engine.poller.timers) :
    engine.sender.hasTxTimer = true ∧
      Fits { engine with
        poller := engine.poller.fire .tx
        sender := { engine.sender with hasTxTimer := false } } := by
  have flag : engine.sender.hasTxTimer = true := by
    have among := fits.timers.mem_iff.mp set
    cases timer : engine.sender.hasTxTimer with
    | true => rfl
    | false => cases rx : engine.hasRxTimer <;> simp [timersSet, timer, rx] at among
  refine ⟨flag, ?_⟩
  rw [Fits, flag] at fits
  exact Poller.Registered.fire fits

/-- A receive timer that fires is not set any more. -/
theorem Fits.fire_rx (fits : engine.Fits) (set : .rx ∈ engine.poller.timers) :
    Fits { engine with
      poller := engine.poller.fire .rx
      hasRxTimer := false } := by
  have flag : engine.hasRxTimer = true := by
    have among := fits.timers.mem_iff.mp set
    cases timer : engine.hasRxTimer with
    | true => rfl
    | false => cases tx : engine.sender.hasTxTimer <;> simp [timersSet, timer, tx] at among
  rw [Fits, flag] at fits
  exact Poller.Registered.fire (fits.congr (timersSet_rx _).symm)

/-- The status timer is set again when it has fired. -/
theorem Fits.statusTimerEvent (fits : engine.Fits) :
    Fits { engine with poller := engine.poller.fire .status }.statusTimerEvent := by
  have last := (Poller.Registered.congr fits (List.perm_append_singleton ..)).fire
  have again := last.addTimer (by decide : (0 : Int) ≤ kStatusReportInterval * 1000) .status
  exact again.congr (List.perm_append_singleton ..).symm

theorem Follows.exec (follows : Follows options engine) {event : Event}
    (enabled : engine.Enabled event) {fuel : Nat} {seen : Option Sent}
    (done : engine.exec options.toSenderOptions fuel event = some (seen, next)) :
    Follows options next := by
  cases event with
  | plug =>
      obtain ⟨-, rfl⟩ := Prod.mk.inj (Option.some_inj.mp done)
      cases follows with
      | built serializer feed =>
          obtain ⟨polling, reachable⟩ := polling_plug options serializer feed
          exact .plugged rfl polling reachable
      | plugged phase => exact absurd (phase.symm.trans enabled) nofun
      | terminated phase => exact absurd (phase.symm.trans enabled) nofun
  | output handle arrivals pgmSend =>
      obtain ⟨⟨sent, next'⟩, ran, same⟩ := Option.map_eq_some_iff.mp done
      obtain ⟨-, rfl⟩ := Prod.mk.inj same
      have plugged := follows.plugged_of_pollout enabled
      obtain ⟨⟨fits, held, waiting⟩, reachable⟩ := follows.polling plugged
      have polls : engine.sender.pollout = true := by
        have polled : engine.poller.pollout handle = true := enabled
        rw [fits.pollout] at polled
        cases handle <;> first | exact polled | exact absurd polled nofun
      obtain ⟨⟨status, plain⟩, polling, phase⟩ := Polling.outEvent
        (engine.meanwhile arrivals) fits waiting (fun set => (held set).2) ran
      exact .plugged (phase.trans plugged) polling
        (.handles .outEvent arrivals status reachable polls plain)
  | input handle result remaining =>
      obtain ⟨next', ran, same⟩ := Option.map_eq_some_iff.mp done
      obtain ⟨-, rfl⟩ := Prod.mk.inj same
      have plugged := follows.plugged_of_pollin enabled
      obtain ⟨⟨fits, held, waiting⟩, reachable⟩ := follows.polling plugged
      obtain ⟨polling, sender, phase⟩ := Polling.inEvent fits held ran
      exact .plugged (phase.trans plugged) polling (sender ▸ reachable)
  | restartOutput arrivals pgmSend =>
      obtain ⟨⟨sent, next'⟩, ran, same⟩ := Option.map_eq_some_iff.mp done
      obtain ⟨-, rfl⟩ := Prod.mk.inj same
      obtain ⟨plugged, flying⟩ := enabled
      obtain ⟨⟨fits, held, waiting⟩, reachable⟩ := follows.polling plugged
      obtain ⟨⟨status, plain⟩, polling, phase⟩ := Polling.outEvent
        (engine.received.meanwhile arrivals).setPollout (Fits.setPollout fits) waiting
        (fun set => (held set).2) ran
      exact .plugged (phase.trans plugged) polling
        (.handles .restartOutput arrivals status reachable flying plain)
  | txTimer arrivals pgmSend =>
      obtain ⟨⟨sent, next'⟩, ran, same⟩ := Option.map_eq_some_iff.mp done
      obtain ⟨-, rfl⟩ := Prod.mk.inj same
      have plugged := follows.plugged_of_timer enabled
      obtain ⟨⟨fits, held, waiting⟩, reachable⟩ := follows.polling plugged
      obtain ⟨flag, fired⟩ := fits.fire_tx enabled
      obtain ⟨⟨status, plain⟩, polling, phase⟩ := Polling.outEvent
        (({ engine with
          poller := engine.poller.fire .tx
          sender := { engine.sender with hasTxTimer := false } } : SenderEngine σ Feed).meanwhile
            arrivals).setPollout
        (Fits.setPollout fired) waiting nofun ran
      exact .plugged (phase.trans plugged) polling
        (.handles .txTimer arrivals status reachable flag plain)
  | rxTimer result remaining =>
      obtain ⟨next', ran, same⟩ := Option.map_eq_some_iff.mp done
      obtain ⟨-, rfl⟩ := Prod.mk.inj same
      have plugged := follows.plugged_of_timer enabled
      obtain ⟨⟨fits, held, waiting⟩, reachable⟩ := follows.polling plugged
      obtain ⟨polling, sender, phase⟩ := Polling.inEvent (fits.fire_rx enabled) held ran
      exact .plugged (phase.trans plugged) polling (sender ▸ reachable)
  | statusTimer =>
      obtain ⟨-, rfl⟩ := Prod.mk.inj (Option.some_inj.mp done)
      have plugged := follows.plugged_of_timer enabled
      obtain ⟨⟨fits, held, waiting⟩, reachable⟩ := follows.polling plugged
      exact .plugged plugged ⟨fits.statusTimerEvent, held, waiting⟩ reachable
  | terminate =>
      obtain ⟨-, rfl⟩ := Prod.mk.inj (Option.some_inj.mp done)
      obtain ⟨polling, -⟩ := follows.polling enabled.1
      exact .terminated rfl (released_terminate polling.fits)
  | pushes step =>
      obtain ⟨-, rfl⟩ := Prod.mk.inj (Option.some_inj.mp done)
      cases follows with
      | built serializer feed => exact .built serializer (feed.act step)
      | plugged phase polling reachable =>
          exact .plugged phase ⟨polling.fits, polling.held, polling.waiting⟩
            (.pushes step reachable)
      | terminated phase => exact absurd phase enabled

theorem Lives.follows (lives : Lives options.toSenderOptions engine) : Follows options engine := by
  induction lives with
  | built serializer feed => exact .built serializer feed
  | event event _ enabled done ih => exact ih.exec enabled done

/-! ## No assertion fails -/

section

variable {π : Type} {engine : SenderEngine σ π}

/-- A packet is sent or kept when OpenPGM does as documented. -/
theorem exists_send (engine : SenderEngine σ π) {pgmSend : Nat → SendResult}
    (documented : ∀ dataLen, (pgmSend dataLen).Documented dataLen)
    (filled : engine.sender.writeSize ≠ 0) :
    ∃ sent, engine.send pgmSend = some sent := by
  have here := documented engine.sender.writeSize
  have positive : 0 < engine.sender.writeSize := Nat.pos_of_ne_zero filled
  have never : ¬0 = engine.sender.writeSize := Ne.symm filled
  rw [SenderEngine.send]
  simp only [writeSize_resumed, PGMSocket.send]
  generalize pgmSend engine.sender.writeSize = result at here ⊢
  cases here with
  | normal => simp [positive]
  | rateLimited => simp [never]
  | wouldBlock => simp [never]

theorem exists_inEvent (engine : SenderEngine σ π) {result : RecvResult Unit}
    (upstream : result.Upstream) (remaining : Remaining) :
    ∃ next, engine.inEvent result remaining = some next := by
  rw [SenderEngine.inEvent, PGMSocket.processUpstream, if_pos upstream.bytesRead]
  rcases upstream.status with status | status | status <;> simp [status]

end

/-- `OutEvent` returns when OpenPGM does as documented. -/
theorem exists_outEvent (options : FedOptions σ) (engine : SenderEngine σ Feed)
    {pgmSend : Nat → SendResult}
    (documented : ∀ dataLen, (pgmSend dataLen).Documented dataLen) :
    ∃ fuel sent, engine.outEvent options.toSenderOptions fuel pgmSend = some sent := by
  obtain ⟨filling, fuel, ran⟩ := PGMSender.exists_filled options engine.sender
  refine ⟨fuel, ?_⟩
  rw [SenderEngine.outEvent]
  split
  · rw [ran]
    by_cases empty : filling.payload = []
    · simp [empty]
    · obtain ⟨sent, done⟩ := exists_send
        { engine with sender := PGMSender.packed filling } documented
        (PGMSender.writeSize_packed filling)
      simp [empty, done]
  · rename_i packed
    obtain ⟨sent, done⟩ := exists_send engine documented packed
    simp [done]

/-- The rate is limited. -/
def limited : Nat → SendResult := fun _ => ⟨.rateLimited, 0, ⟨5, 7⟩⟩

/-- A message is in the pipe, and the writer is not to send a command. -/
def fullFeed : Feed := { PGMSender.quietFeed with flushed := [⟨[1, 2], 2, 1024, 0⟩] }

theorem lives_plugged :
    Lives PGMSender.plainOptions.toSenderOptions (init [] fullFeed).plug := by
  have ran : (init [] fullFeed).exec PGMSender.plainOptions.toSenderOptions 0 .plug =
      some (none, (init [] fullFeed).plug) := rfl
  exact .event .plug (.built [] fullFeed) rfl ran

/-- A sender whose first packet waits for the timer. -/
theorem lives_held : ∃ engine, Lives PGMSender.plainOptions.toSenderOptions engine ∧
    engine.phase = .plugged ∧ engine.sender.writeSize = 9 ∧ .tx ∈ engine.poller.timers := by
  have done : ∃ seen engine, (init [] fullFeed).plug.exec PGMSender.plainOptions.toSenderOptions 2
      (.output .downlink [] limited) = some (seen, engine) ∧ engine.phase = .plugged ∧
        engine.sender.writeSize = 9 ∧ .tx ∈ engine.poller.timers := by
    refine ⟨_, _, rfl, ?_⟩
    exact ⟨rfl, rfl, List.mem_of_elem_eq_true rfl⟩
  obtain ⟨seen, engine, ran, facts⟩ := done
  exact ⟨engine, .event (.output .downlink [] limited) lives_plugged rfl ran, facts⟩

/-! ## Results -/

/-- A sender keeps to what the poller provides for.  While it is plugged it polls all handles but
the downlink for input, and the downlink alone for output; its timers are set once each; the receive
timer is set just if the last call of `pgm_recvmsgv` has told how long to wait, and the send timer
only while a packet waits and the downlink is not polled.  Before and after, nothing of it is left
registered. -/
theorem sender_registrations (lives : Lives options.toSenderOptions engine) :
    engine.poller.misused = false ∧
      (engine.phase = .plugged → (∀ handle, engine.poller.handles handle = true ∧
          (engine.poller.pollin handle = true ↔ handle ≠ .downlink) ∧
          (engine.poller.pollout handle = true → handle = .downlink)) ∧
        engine.poller.timers.Nodup ∧ .status ∈ engine.poller.timers ∧
        (.rx ∈ engine.poller.timers ↔ engine.Waiting) ∧
        (.tx ∈ engine.poller.timers →
          engine.poller.pollout .downlink = false ∧ engine.sender.writeSize ≠ 0)) ∧
      (engine.phase ≠ .plugged → engine.poller.Released) := by
  have follows := lives.follows
  by_cases plugged : engine.phase = .plugged
  · obtain ⟨⟨fits, held, waiting⟩, -⟩ := follows.polling plugged
    refine ⟨fits.proper, fun _ => ⟨fun handle => ⟨fits.handles handle, ?_, ?_⟩, ?_, ?_, ?_,
      fun set => ?_⟩, fun other => absurd plugged other⟩
    · rw [fits.pollin]
      cases handle <;> simp [polledIn]
    · rw [fits.pollout]
      cases handle <;> simp [polledOut]
    · rw [fits.timers.nodup_iff]
      cases engine.sender.hasTxTimer <;> cases engine.hasRxTimer <;> decide
    · rw [fits.timers.mem_iff]
      simp [timersSet]
    · rw [fits.timers.mem_iff, ← waiting, timersSet]
      cases engine.sender.hasTxTimer <;> cases engine.hasRxTimer <;> decide
    · obtain ⟨flag, -⟩ := fits.fire_tx set
      rw [fits.pollout]
      exact held flag
  · have released := follows.released plugged
    exact ⟨released.proper, fun other => absurd other plugged, fun _ => released⟩

/-- A sender whose first packet waits for the timer does not poll the downlink. -/
theorem sender_registrations_held : ∃ engine : SenderEngine (List UInt8) Feed,
    .tx ∈ engine.poller.timers ∧ engine.poller.pollout .downlink = false := by
  obtain ⟨engine, lives, plugged, -, set⟩ := lives_held
  obtain ⟨-, registered, -⟩ := sender_registrations lives
  exact ⟨engine, set, ((registered plugged).2.2.2.2 set).1⟩

/-- While something is to be sent, the poller will call `OutEvent`: it polls the downlink or has the
send timer set; or else the command that makes it poll is on its way, or about to be sent by the
pushing thread. -/
theorem output_is_called (lives : Lives options.toSenderOptions engine)
    (plugged : engine.phase = .plugged) (pending : engine.sender.DataPending) :
    engine.poller.pollout .downlink = true ∨ .tx ∈ engine.poller.timers ∨
      engine.sender.ioPipe.obliged = true ∨ 0 < engine.sender.ioPipe.restarts := by
  obtain ⟨⟨fits, -, -⟩, reachable⟩ := lives.follows.polling plugged
  rcases reachable.wakeful with (polls | timer | owing | flying) | ⟨nothing, -⟩
  · left
    rw [fits.pollout]
    exact polls
  · right
    left
    rw [fits.timers.mem_iff, timer]
    exact List.mem_cons_self ..
  · exact Or.inr (Or.inr (Or.inl owing))
  · exact Or.inr (Or.inr (Or.inr flying))
  · exact absurd pending nothing

theorem output_is_called_held : ∃ engine : SenderEngine (List UInt8) Feed,
    engine.sender.writeSize = 9 ∧
      (engine.poller.pollout .downlink = true ∨ .tx ∈ engine.poller.timers ∨
        engine.sender.ioPipe.obliged = true ∨ 0 < engine.sender.ioPipe.restarts) := by
  obtain ⟨engine, lives, plugged, size, -⟩ := lives_held
  exact ⟨engine, size, output_is_called lives plugged (Or.inl (by simp [size]))⟩

/-- Every handler that the poller calls returns, and no assertion fails in it, as long as OpenPGM
does as documented, whatever the pushing thread does meanwhile. -/
theorem handlers_return (lives : Lives options.toSenderOptions engine) {event : Event}
    (enabled : engine.Enabled event) (documented : event.Documented) :
    ∃ fuel seen next, engine.exec options.toSenderOptions fuel event = some (seen, next) ∧
      Lives options.toSenderOptions next := by
  have returns : ∃ fuel result, engine.exec options.toSenderOptions fuel event = some result := by
    cases event with
    | plug => exact ⟨0, _, rfl⟩
    | output handle arrivals pgmSend =>
        obtain ⟨fuel, sent, done⟩ := exists_outEvent options
          (engine.meanwhile arrivals) documented
        exact ⟨fuel, _, congrArg witnessed done⟩
    | input handle result remaining =>
        obtain ⟨next, done⟩ := exists_inEvent engine documented remaining
        exact ⟨0, _, congrArg unseen done⟩
    | restartOutput arrivals pgmSend =>
        obtain ⟨fuel, sent, done⟩ := exists_outEvent options
          (engine.received.meanwhile arrivals).setPollout documented
        exact ⟨fuel, _, congrArg witnessed done⟩
    | txTimer arrivals pgmSend =>
        obtain ⟨fuel, sent, done⟩ := exists_outEvent options
          (({ engine with
            poller := engine.poller.fire .tx
            sender := { engine.sender with hasTxTimer := false } } : SenderEngine σ Feed).meanwhile
              arrivals).setPollout documented
        exact ⟨fuel, _, congrArg witnessed done⟩
    | rxTimer result remaining =>
        obtain ⟨next, done⟩ := exists_inEvent
          { engine with
            poller := engine.poller.fire .rx
            hasRxTimer := false } documented remaining
        exact ⟨0, _, congrArg unseen done⟩
    | statusTimer => exact ⟨0, _, rfl⟩
    | terminate => exact ⟨0, _, rfl⟩
    | pushes step => exact ⟨0, _, rfl⟩
  obtain ⟨fuel, ⟨seen, next⟩, done⟩ := returns
  exact ⟨fuel, seen, next, done, .event event lives enabled done⟩

/-- The timer of a packet that waits fires, and the packet has to wait again. -/
theorem handlers_return_held : ∃ engine : SenderEngine (List UInt8) Feed, ∃ fuel seen next,
    engine.exec PGMSender.plainOptions.toSenderOptions fuel (.txTimer [] limited) =
      some (seen, next) := by
  obtain ⟨engine, lives, -, -, set⟩ := lives_held
  have enabled : engine.Enabled (.txTimer [] limited) := set
  obtain ⟨fuel, seen, next, done, -⟩ := handlers_return lives enabled
    fun dataLen => .rateLimited ⟨5, 7⟩
  exact ⟨engine, fuel, seen, next, done⟩

end SenderEngine

end FlashForwarder
