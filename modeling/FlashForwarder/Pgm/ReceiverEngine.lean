import FlashForwarder.Library.Poller
import FlashForwarder.Pgm.Socket

/-!
# The receiver as an engine

`PGMReceiver` between `Plug` and `Terminate`: it polls the two handles of its socket, takes what the
socket gives in `InEvent`, and keeps two timers.  The poller is outside the source; it calls
`InEvent` for a handle it polls, and `TimerEvent` for a timer that is set.  What `TimerEvent` tells
to other threads is left out.
-/

namespace FlashForwarder

open ProgramLoop

/-- The handles of a receiver. -/
inductive ReceiverHandle where
  /-- `socket_handle_` -/
  | socket
  /-- `pipe_handle_` -/
  | pipe
  deriving DecidableEq

/-- The timers of a receiver. -/
inductive ReceiverTimer where
  /-- `rx_timer_id` -/
  | rx
  /-- `status_timter_id` -/
  | status
  deriving DecidableEq

/-- Where an engine is between its construction and its end. -/
inductive EnginePhase where
  | built
  | plugged
  | terminated
  deriving DecidableEq

/-- `kStatusReportInterval` -/
def kStatusReportInterval : Nat := 1

/-- The members of `PGMReceiver`, its socket and what it has registered among them. -/
structure ReceiverEngine (τ : Type) where
  /-- What `InEvent` uses. -/
  receiver : PGMReceiver τ
  /-- `pgm_socket_` -/
  socket : PGMSocket τ
  /-- `has_rx_timer_` -/
  hasRxTimer : Bool
  /-- `select_`, as far as this engine is concerned. -/
  poller : Poller ReceiverHandle ReceiverTimer
  /-- Whether `Plug` and `Terminate` were called. -/
  phase : EnginePhase

/-- What `InEvent` meets with while it runs. -/
structure Surroundings (τ : Type) where
  /-- What each call of `pgm_recvmsgv` leaves behind. -/
  recv : Nat → RecvResult τ
  /-- The clock when each datagram is parsed. -/
  clock : Nat → Int64
  /-- The time that is left. -/
  remaining : Remaining

/-- The locals of `InEvent`. -/
structure Reading (τ : Type) where
  /-- The members. -/
  engine : ReceiverEngine τ
  /-- How many calls of `pgm_recvmsgv` there were. -/
  calls : Nat
  /-- How many datagrams there were. -/
  taken : Nat
  /-- What was done with them. -/
  deliveries : List (Delivery τ)

/-- A datagram was given by the socket and worked off. -/
def Reading.took {τ : Type} (reading : Reading τ) (socket : PGMSocket τ)
    (deliveries : List (Delivery τ)) (receiver : PGMReceiver τ) : Reading τ where
  engine :=
    { reading.engine with
      socket := socket
      receiver := receiver }
  calls := if reading.engine.socket.drained then reading.calls + 1 else reading.calls
  taken := reading.taken + 1
  deliveries := reading.deliveries ++ deliveries

/-- What the poller calls, and the commands. -/
inductive ReceiverEvent (τ : Type) where
  /-- `Plug` -/
  | plug
  /-- `InEvent` -/
  | input (handle : ReceiverHandle) (surroundings : Surroundings τ)
  /-- `OutEvent` -/
  | output (handle : ReceiverHandle)
  /-- `TimerEvent` -/
  | timer (timer : ReceiverTimer) (surroundings : Surroundings τ)
  /-- `Terminate` -/
  | terminate

namespace ReceiverEngine

variable {τ : Type} [DecidableEq τ] (options : ReceiverOptions) (engine : ReceiverEngine τ)

/-- The engine after its construction and `Init`. -/
def init (msgvLen : Nat) : ReceiverEngine τ where
  receiver := PGMReceiver.init
  socket := .init msgvLen
  hasRxTimer := false
  poller := .fresh
  phase := .built

/-- `Plug` -/
def plug : ReceiverEngine τ :=
  { engine with
    poller := (((([ReceiverHandle.socket, .pipe].foldl Poller.addHandle engine.poller)
      ).setPollin .pipe).setPollin .socket).addTimer (kStatusReportInterval * 1000) .status
    phase := .plugged }

/-- `CancelTimer(this, rx_timer_id)`, if it is set. -/
def cancelRxTimer : ReceiverEngine τ :=
  if engine.hasRxTimer then
    { engine with
      poller := engine.poller.cancelTimer .rx
      hasRxTimer := false }
  else engine

/-- The receive timer is set for a status that tells how long to wait. -/
def armRxTimer (rc : ReturnCode) (remaining : Remaining) : ReceiverEngine τ :=
  if rc = .nomem ∨ rc = .busy then
    { engine with
      poller := engine.poller.addTimer (engine.socket.getRxTimeout remaining) .rx
      hasRxTimer := true }
  else engine

/-- One pass of the loop in `InEvent`. -/
def readPass (surroundings : Surroundings τ) (reading : Reading τ) :
    Pass (Reading τ) (Option (List (Delivery τ) × ReceiverEngine τ)) :=
  match reading.engine.socket.receive (surroundings.recv reading.calls) with
  | none => .leave none
  | some (receipt, socket) =>
      let engine := { reading.engine with socket := socket }
      if receipt.received = 0 then
        .leave (some (reading.deliveries, engine.armRxTimer receipt.rc surroundings.remaining))
      else if receipt.received = -1 then .leave (some (reading.deliveries, engine))
      else
        match receipt.data.bind fun (tsi, bytes) =>
          engine.receiver.packet options tsi bytes (surroundings.clock reading.taken) with
        | none => .leave none
        | some (deliveries, receiver) => .again (reading.took socket deliveries receiver)

/-- `InEvent`, allowed so many passes. -/
def inEvent (fuel : Nat) (surroundings : Surroundings τ) :
    Option (List (Delivery τ) × ReceiverEngine τ) :=
  (run (readPass options surroundings) fuel ⟨engine.cancelRxTimer, 0, 0, []⟩).join

/-- `TimerEvent`, apart from the counters it stores in `atomic_status_`. -/
def timerEvent (fuel : Nat) (timer : ReceiverTimer) (surroundings : Surroundings τ) :
    Option (List (Delivery τ) × ReceiverEngine τ) :=
  match timer with
  | .rx => { engine with hasRxTimer := false }.inEvent options fuel surroundings
  | .status =>
      some ([],
        { engine with
          poller := engine.poller.addTimer (kStatusReportInterval * 1000) .status })

/-- `Terminate` -/
def terminate : ReceiverEngine τ :=
  let engine := { engine with receiver.peers := fun _ => none }.cancelRxTimer
  { engine with
    poller := [ReceiverHandle.socket, .pipe].foldl Poller.removeHandle
      (engine.poller.cancelTimer .status)
    phase := .terminated }

/-- What an event leads to; there is no result if an assertion fails or the fuel runs out. -/
def exec (fuel : Nat) : ReceiverEvent τ → Option (List (Delivery τ) × ReceiverEngine τ)
  | .plug => some ([], engine.plug)
  | .input _ surroundings => engine.inEvent options fuel surroundings
  | .output _ => none
  | .timer timer surroundings =>
      { engine with poller := engine.poller.fire timer }.timerEvent options fuel timer surroundings
  | .terminate => some ([], engine.terminate)

/-- OpenPGM does as documented.  That it gives no empty datagrams is assumed besides: PGM knows
packets without a payload. -/
def Sound (surroundings : Surroundings τ) : Prop :=
  ∀ call, (surroundings.recv call).Documented engine.socket.msgvLen ∧
    ∀ message ∈ (surroundings.recv call).messages, message.2 ≠ []

/-- An engine is plugged once and terminated once; in between the poller calls it for what it has
registered. -/
def Enabled : ReceiverEvent τ → Prop
  | .plug => engine.phase = .built
  | .input handle surroundings => engine.poller.pollin handle = true ∧ engine.Sound surroundings
  | .output handle => engine.poller.pollout handle = true
  | .timer timer surroundings => timer ∈ engine.poller.timers ∧ engine.Sound surroundings
  | .terminate => engine.phase = .plugged

/-- The datagrams that OpenPGM gives at an event: those of the one call that there is. -/
def givenAt : ReceiverEvent τ → List (τ × List UInt8)
  | .input _ surroundings | .timer .rx surroundings =>
      if (surroundings.recv 0).status = .normal then (surroundings.recv 0).messages else []
  | .plug | .output _ | .timer .status _ | .terminate => []

/-- The lives of an engine: the datagrams that OpenPGM has given, and what was done with them. -/
inductive Lives (msgvLen : Nat) :
    List (τ × List UInt8) → List (Delivery τ) → ReceiverEngine τ → Prop
  | built : Lives msgvLen [] [] (init msgvLen)
  | event {given : List (τ × List UInt8)} {deliveries more : List (Delivery τ)}
      {engine next : ReceiverEngine τ} {fuel : Nat} (event : ReceiverEvent τ) :
      Lives msgvLen given deliveries engine → engine.Enabled event →
      engine.exec options fuel event = some (more, next) →
      Lives msgvLen (given ++ givenAt event) (deliveries ++ more) next

/-! ## One call of `InEvent` -/

/-- Datagrams with the times when they are parsed, as receptions. -/
def receptionsOf (arrivals : List ((τ × List UInt8) × Int64)) : List (Reception τ) :=
  arrivals.map fun ((tsi, bytes), timestamp) => .data tsi bytes timestamp

/-- Datagrams with the times that the clock shows, from one of them on. -/
def timed (clock : Nat → Int64) (taken : Nat) (messages : List (τ × List UInt8)) :
    List ((τ × List UInt8) × Int64) :=
  (messages.zipIdx taken).map fun (message, place) => (message, clock place)

/-- The datagrams of the one call of `pgm_recvmsgv` that there is. -/
def arrivalsAt (surroundings : Surroundings τ) : List ((τ × List UInt8) × Int64) :=
  if (surroundings.recv 0).status = .normal then
    timed surroundings.clock 0 (surroundings.recv 0).messages
  else []

/-- What `InEvent` comes to: the datagrams of one call of `pgm_recvmsgv` are worked off, and the
timer is set as its status tells. -/
def inEventResult (surroundings : Surroundings τ) :
    Option (List (Delivery τ) × ReceiverEngine τ) :=
  let engine := engine.cancelRxTimer
  let result := surroundings.recv 0
  (engine.receiver.inEvent options (receptionsOf (arrivalsAt surroundings))).map
    fun (deliveries, receiver) =>
      (deliveries, { engine with
        receiver := receiver
        socket := engine.socket.after result }.armRxTimer (PGMSocket.codeOf result.status)
          surroundings.remaining)

variable {options} {engine} {surroundings : Surroundings τ}

omit [DecidableEq τ] in
@[simp] theorem timed_cons (clock : Nat → Int64) (taken : Nat) (message : τ × List UInt8)
    (messages : List (τ × List UInt8)) : timed clock taken (message :: messages) =
      (message, clock taken) :: timed clock (taken + 1) messages := rfl

omit [DecidableEq τ] in
@[simp] theorem receptionsOf_cons (tsi : τ) (bytes : List UInt8) (timestamp : Int64)
    (arrivals : List ((τ × List UInt8) × Int64)) :
    receptionsOf (((tsi, bytes), timestamp) :: arrivals) =
      .data tsi bytes timestamp :: receptionsOf arrivals := rfl

/-- A datagram is worked off before those behind it. -/
theorem inEvent_data {receiver next : PGMReceiver τ} {tsi : τ} {bytes : List UInt8}
    {timestamp : Int64} {first : List (Delivery τ)}
    (packet : receiver.packet options tsi bytes timestamp = some (first, next))
    (receptions : List (Reception τ)) :
    receiver.inEvent options (.data tsi bytes timestamp :: receptions) =
      (next.inEvent options receptions).map fun (rest, last) => (first ++ rest, last) := by
  rw [PGMReceiver.inEvent, packet]
  cases worked : next.inEvent options receptions <;> simp [worked]

/-- The engine when the rest of a vector was worked off. -/
def Reading.worked (reading : Reading τ) (deliveries : List (Delivery τ))
    (receiver : PGMReceiver τ) : List (Delivery τ) × ReceiverEngine τ :=
  (reading.deliveries ++ deliveries,
    { reading.engine with
      receiver := receiver
      socket := reading.engine.socket.rewind })

/-- The rest of a vector is worked off, and the loop is left. -/
theorem leaves_holding (options : ReceiverOptions) (surroundings : Surroundings τ)
    (reading : Reading τ) {given left : List (τ × List UInt8)}
    (holding : reading.engine.socket.Holding given left)
    (filled : ∀ message ∈ left, message.2 ≠ [] ∧ message.2.length < 65536) :
    Leaves (readPass options surroundings) reading
      ((reading.engine.receiver.inEvent options
        (receptionsOf (timed surroundings.clock reading.taken left))).map
          fun (deliveries, receiver) => Reading.worked reading deliveries receiver) := by
  induction left generalizing reading given with
  | nil =>
      apply leaves_of_leave
      rw [readPass, holding.receive_end]
      simp [receptionsOf, timed, PGMReceiver.inEvent, armRxTimer, Reading.worked]
  | cons message left ih =>
      obtain ⟨tsi, bytes⟩ := message
      obtain ⟨⟨nonempty, short⟩, filled⟩ := List.forall_mem_cons.mp filled
      have positive : 0 < bytes.length := List.length_pos_iff.mpr nonempty
      obtain ⟨socket, received, held, same⟩ := holding.receive nonempty short
        (surroundings.recv reading.calls)
      cases packet : reading.engine.receiver.packet options tsi bytes
          (surroundings.clock reading.taken) with
      | none =>
          apply leaves_of_leave
          rw [readPass, received]
          simp only [Option.bind_some, packet]
          rw [if_neg (by omega), if_neg (by omega)]
          simp [receptionsOf, timed, PGMReceiver.inEvent, packet]
      | some done =>
          obtain ⟨deliveries, receiver⟩ := done
          have again : readPass options surroundings reading =
              .again (reading.took socket deliveries receiver) := by
            rw [readPass, received]
            simp only [Option.bind_some, packet]
            rw [if_neg (by omega), if_neg (by omega)]
          refine leaves_of_again again ?_
          · have rest := @ih (reading.took socket deliveries receiver) _ held filled
            rw [timed_cons, receptionsOf_cons, inEvent_data packet, Option.map_map]
            simpa [Function.comp_def, Reading.worked, Reading.took, same] using rest

omit [DecidableEq τ] in
theorem cancelRxTimer_keeps (engine : ReceiverEngine τ) :
    engine.cancelRxTimer.socket = engine.socket ∧
    engine.cancelRxTimer.receiver = engine.receiver := by
  rw [cancelRxTimer]
  split <;> exact ⟨rfl, rfl⟩

omit [DecidableEq τ] in
theorem armRxTimer_keeps (engine : ReceiverEngine τ) (rc : ReturnCode) (remaining : Remaining) :
    (engine.armRxTimer rc remaining).socket = engine.socket ∧
      (engine.armRxTimer rc remaining).receiver = engine.receiver := by
  rw [armRxTimer]
  split <;> exact ⟨rfl, rfl⟩

/-- From an idle socket `InEvent` makes one call of `pgm_recvmsgv`, works off every datagram of it
in order, and leaves the socket idle. -/
theorem leaves_inEvent (idle : engine.socket.Idle) (sound : engine.Sound surroundings) :
    Leaves (readPass options surroundings) ⟨engine.cancelRxTimer, 0, 0, []⟩
      (engine.inEventResult options surroundings) := by
  obtain ⟨socket, -⟩ := engine.cancelRxTimer_keeps
  rw [inEventResult]
  generalize engine.cancelRxTimer = engine' at *
  rw [← socket] at idle
  obtain ⟨documented, nonempty⟩ := sound 0
  rw [← socket] at documented
  by_cases normal : (surroundings.recv 0).status = .normal
  · obtain ⟨some_message, -⟩ := documented.filled normal
    obtain ⟨⟨tsi, bytes⟩, left, messages⟩ := List.exists_cons_of_ne_nil some_message
    have short := documented.short
    rw [messages] at nonempty short
    obtain ⟨here, rest⟩ := List.forall_mem_cons.mp nonempty
    obtain ⟨-, shorts⟩ := List.forall_mem_cons.mp short
    have positive : 0 < bytes.length := List.length_pos_iff.mpr here
    obtain ⟨socket', received, held, same⟩ := idle.receive_normal documented normal messages here
    rw [arrivalsAt, if_pos normal, messages, timed_cons, receptionsOf_cons]
    have unarmed : ∀ engine : ReceiverEngine τ, engine.armRxTimer
        (PGMSocket.codeOf (surroundings.recv 0).status) surroundings.remaining = engine := by
      intro engine
      rw [normal, armRxTimer, if_neg (by simp [PGMSocket.codeOf])]
    simp only [unarmed]
    cases packet : engine'.receiver.packet options tsi bytes (surroundings.clock 0) with
    | none =>
        apply leaves_of_leave
        rw [readPass, received]
        simp only [Option.bind_some, packet]
        rw [if_neg (by omega), if_neg (by omega)]
        simp [PGMReceiver.inEvent, packet]
    | some done =>
        obtain ⟨deliveries, receiver'⟩ := done
        have again : readPass options surroundings ⟨engine', 0, 0, []⟩ =
            .again ((⟨engine', 0, 0, []⟩ : Reading τ).took socket' deliveries receiver') := by
          rw [readPass, received]
          simp only [Option.bind_some, packet]
          rw [if_neg (by omega), if_neg (by omega)]
        refine leaves_of_again again ?_
        · have worked := leaves_holding options surroundings
            ((⟨engine', 0, 0, []⟩ : Reading τ).took socket' deliveries receiver') held
            fun message member => ⟨rest message member, shorts message member⟩
          rw [inEvent_data packet, Option.map_map]
          simpa [Function.comp_def, Reading.worked, Reading.took, same] using worked
  · apply leaves_of_leave
    rw [readPass, idle.receive_quiet documented normal, arrivalsAt, if_neg normal]
    by_cases reset : (surroundings.recv 0).status = .reset
    · simp [reset, receptionsOf, PGMReceiver.inEvent, armRxTimer, PGMSocket.codeOf]
    · simp [reset, receptionsOf, PGMReceiver.inEvent]

/-- `InEvent` comes to its result with enough fuel, and to no other. -/
theorem inEvent_iff (idle : engine.socket.Idle) (sound : engine.Sound surroundings)
    (result : List (Delivery τ) × ReceiverEngine τ) :
    (∃ fuel, engine.inEvent options fuel surroundings = some result) ↔
      engine.inEventResult options surroundings = some result := by
  have left : Leaves (readPass options surroundings) ⟨engine.cancelRxTimer, 0, 0, []⟩
      (engine.inEventResult options surroundings) := leaves_inEvent idle sound
  simp only [inEvent, Option.join_eq_some_iff]
  constructor
  · rintro ⟨fuel, ran⟩
    exact left.unique ⟨fuel, ran⟩
  · intro same
    rwa [← same]

/-! ## A whole life -/

/-- The status of the last call of `pgm_recvmsgv` tells how long to wait. -/
def Waiting (engine : ReceiverEngine τ) : Prop :=
  engine.socket.lastRxStatus = .rateLimited ∨ engine.socket.lastRxStatus = .timerPending

/-- What is registered: nothing before `Plug` and after `Terminate`, and in between both handles for
input and the status timer, with the receive timer when there is something to wait for. -/
def Kept (engine : ReceiverEngine τ) : Prop :=
  match engine.phase with
  | .built | .terminated => engine.poller.Released
  | .plugged =>
      engine.poller.Registered (fun _ => true) (fun _ => false)
          (if engine.hasRxTimer then [.rx, .status] else [.status]) ∧
        (engine.hasRxTimer = true ↔ engine.Waiting)

omit [DecidableEq τ] in
theorem kept_init (msgvLen : Nat) : (init msgvLen : ReceiverEngine τ).Kept :=
  Poller.released_fresh

omit [DecidableEq τ] in
theorem Kept.plug (kept : engine.Kept) (built : engine.phase = .built)
    (unset : engine.hasRxTimer = false) (quiet : ¬engine.Waiting) : engine.plug.Kept := by
  have released : engine.poller.Released := by
    rw [Kept, built] at kept
    exact kept
  refine ⟨?_, ?_⟩
  · have added := released.addHandles [ReceiverHandle.socket, .pipe] (by decide)
      (by rintro (_ | _) <;> decide)
    have polled := ((added.setPollin .pipe).setPollin .socket).addTimer
      (by decide : (0 : Int) ≤ kStatusReportInterval * 1000) .status
    have both : Function.update (Function.update (fun _ => false) ReceiverHandle.pipe true)
        .socket true = fun _ => true := by
      funext handle
      cases handle <;> rfl
    rw [both] at polled
    simpa [ReceiverEngine.plug, unset] using polled
  · simpa [ReceiverEngine.plug, Waiting, unset] using quiet

omit [DecidableEq τ] in
/-- What has been registered while no receive timer is set. -/
theorem registered_cancelRxTimer (registered : ReceiverEngine τ)
    (kept : registered.poller.Registered (fun _ => true) (fun _ => false)
      (if registered.hasRxTimer then [.rx, .status] else [.status])) :
    registered.cancelRxTimer.poller.Registered (fun _ => true) (fun _ => false) [.status] ∧
      registered.cancelRxTimer.hasRxTimer = false := by
  rw [cancelRxTimer]
  split
  · rename_i set
    rw [if_pos set] at kept
    exact ⟨kept.cancelTimer, rfl⟩
  · rename_i unset
    rw [if_neg unset] at kept
    exact ⟨kept, Bool.eq_false_of_not_eq_true unset⟩

/-- `InEvent` leaves the receive timer set just if there is something to wait for. -/
theorem kept_inEventResult (plugged : engine.phase = .plugged)
    (registered : engine.poller.Registered (fun _ => true) (fun _ => false)
      (if engine.hasRxTimer then [.rx, .status] else [.status]))
    {result : List (Delivery τ) × ReceiverEngine τ}
    (worked : engine.inEventResult options surroundings = some result) :
    result.2.Kept ∧ result.2.phase = .plugged := by
  obtain ⟨⟨deliveries, receiver⟩, -, rfl⟩ := Option.map_eq_some_iff.mp worked
  obtain ⟨cancelled, unset⟩ := registered_cancelRxTimer _ registered
  have same : engine.cancelRxTimer.phase = .plugged := by
    rw [cancelRxTimer]
    split <;> exact plugged
  generalize engine.cancelRxTimer = engine' at *
  dsimp only
  rw [armRxTimer]
  split
  · rename_i code
    have waiting : (surroundings.recv 0).status = .rateLimited ∨
        (surroundings.recv 0).status = .timerPending := by
      cases status : (surroundings.recv 0).status <;> simp [status, PGMSocket.codeOf] at code ⊢
    refine ⟨?_, same⟩
    rw [Kept]
    simp only [same]
    exact ⟨cancelled.addTimer (PGMSocket.getRxTimeout_nonneg _ waiting) .rx, fun _ => waiting,
      fun _ => trivial⟩
  · rename_i code
    have quiet : ¬((surroundings.recv 0).status = .rateLimited ∨
        (surroundings.recv 0).status = .timerPending) := by
      rintro (status | status) <;> simp [status, PGMSocket.codeOf] at code
    refine ⟨?_, same⟩
    rw [Kept]
    simp only [same]
    refine ⟨by simpa [unset] using cancelled, ?_⟩
    simpa [unset, Waiting, PGMSocket.after] using quiet

/-- A receiver works off one list of datagrams, and then another. -/
theorem inEvent_append (front : List ((τ × List UInt8) × Int64)) (back : List (Reception τ))
    (receiver : PGMReceiver τ) :
    receiver.inEvent options (receptionsOf front ++ back) =
      (receiver.inEvent options (receptionsOf front)).bind fun (first, next) =>
        (next.inEvent options back).map fun (rest, last) => (first ++ rest, last) := by
  induction front generalizing receiver with
  | nil => simp [receptionsOf, PGMReceiver.inEvent]
  | cons arrival front ih =>
      obtain ⟨⟨tsi, bytes⟩, timestamp⟩ := arrival
      rw [receptionsOf_cons, List.cons_append]
      cases packet : receiver.packet options tsi bytes timestamp with
      | none => simp [PGMReceiver.inEvent, packet]
      | some done =>
          obtain ⟨deliveries, next⟩ := done
          rw [inEvent_data packet, inEvent_data packet, ih]
          cases next.inEvent options (receptionsOf front) with
          | none => rfl
          | some worked => simp [Function.comp_def]

omit [DecidableEq τ] in
theorem map_fst_arrivalsAt (surroundings : Surroundings τ) :
    (arrivalsAt surroundings).map Prod.fst =
      if (surroundings.recv 0).status = .normal then (surroundings.recv 0).messages else [] := by
  rw [arrivalsAt]
  split
  · simp [timed, Function.comp_def]
  · rfl

/-- The datagrams were worked off, each once and in order, by a receiver that began with nothing. -/
def WorkedOff (options : ReceiverOptions) (given : List (τ × List UInt8))
    (deliveries : List (Delivery τ)) (receiver : PGMReceiver τ) : Prop :=
  ∃ arrivals, arrivals.map Prod.fst = given ∧
    PGMReceiver.init.inEvent options (receptionsOf arrivals) = some (deliveries, receiver)

/-- What holds of an engine all its life. -/
structure Follows (options : ReceiverOptions) (msgvLen : Nat) (given : List (τ × List UInt8))
    (deliveries : List (Delivery τ)) (engine : ReceiverEngine τ) : Prop where
  idle : engine.socket.Idle
  msgvLen : engine.socket.msgvLen = msgvLen
  kept : engine.Kept
  unset : engine.phase ≠ .plugged → engine.hasRxTimer = false
  quiet : engine.phase = .built → ¬engine.Waiting
  worked : ∃ receiver, WorkedOff options given deliveries receiver ∧
    (engine.phase = .terminated ∨ engine.receiver = receiver)

variable {msgvLen : Nat} {given : List (τ × List UInt8)} {deliveries : List (Delivery τ)}

theorem follows_init (options : ReceiverOptions) (msgvLen : Nat) :
    Follows options msgvLen [] [] (init msgvLen : ReceiverEngine τ) where
  idle := PGMSocket.idle_init msgvLen
  msgvLen := rfl
  kept := kept_init msgvLen
  unset _ := rfl
  quiet _ := by simp [Waiting, init, PGMSocket.init]
  worked := ⟨PGMReceiver.init, ⟨[], rfl, rfl⟩, Or.inr rfl⟩

theorem WorkedOff.more {receiver next : PGMReceiver τ}
    (worked : WorkedOff options given deliveries receiver)
    {arrivals : List ((τ × List UInt8) × Int64)} {later : List (Delivery τ)}
    (done : receiver.inEvent options (receptionsOf arrivals) = some (later, next)) :
    WorkedOff options (given ++ arrivals.map Prod.fst) (deliveries ++ later) next := by
  obtain ⟨earlier, rfl, ran⟩ := worked
  have split : receptionsOf (earlier ++ arrivals) =
      receptionsOf earlier ++ receptionsOf arrivals := List.map_append
  refine ⟨earlier ++ arrivals, by rw [List.map_append], ?_⟩
  rw [split, inEvent_append, ran, Option.bind_some]
  simp [done]

/-- `InEvent`, called for a handle or for the timer. -/
theorem Follows.inEvent (engine : ReceiverEngine τ) (idle : engine.socket.Idle)
    (len : engine.socket.msgvLen = msgvLen)
    (plugged : engine.phase = .plugged)
    (registered : engine.poller.Registered (fun _ => true) (fun _ => false)
      (if engine.hasRxTimer then [.rx, .status] else [.status]))
    (worked : WorkedOff options given deliveries engine.receiver)
    (sound : engine.Sound surroundings) {more : List (Delivery τ)} {next : ReceiverEngine τ}
    {fuel : Nat} (done : engine.inEvent options fuel surroundings = some (more, next)) :
    Follows options msgvLen (given ++ (arrivalsAt surroundings).map Prod.fst)
      (deliveries ++ more) next := by
  have result := (inEvent_iff idle sound _).mp ⟨fuel, done⟩
  obtain ⟨kept, still⟩ := kept_inEventResult plugged registered result
  obtain ⟨socket, receiver⟩ := engine.cancelRxTimer_keeps
  obtain ⟨⟨later, receiver'⟩, here, same⟩ := Option.map_eq_some_iff.mp result
  rw [receiver] at here
  obtain ⟨rfl, rfl⟩ := Prod.mk.inj same
  obtain ⟨socket', receiver''⟩ := armRxTimer_keeps
    { engine.cancelRxTimer with
      receiver := receiver'
      socket := engine.cancelRxTimer.socket.after (surroundings.recv 0) }
    (PGMSocket.codeOf (surroundings.recv 0).status) surroundings.remaining
  refine ⟨?_, ?_, kept, ?_, ?_, receiver', worked.more here, Or.inr receiver''⟩
  · rw [socket']
    exact PGMSocket.idle_after _
  · rw [socket']
    simpa [PGMSocket.after, socket] using len
  · exact fun other => absurd still other
  · intro built
    rw [still] at built
    cases built

omit [DecidableEq τ] in
/-- What is registered while the engine is plugged. -/
theorem Kept.registered (kept : engine.Kept) (plugged : engine.phase = .plugged) :
    engine.poller.Registered (fun _ => true) (fun _ => false)
        (if engine.hasRxTimer then [.rx, .status] else [.status]) ∧
      (engine.hasRxTimer = true ↔ engine.Waiting) := by
  rw [Kept, plugged] at kept
  exact kept

omit [DecidableEq τ] in
/-- An engine that is not plugged has nothing registered. -/
theorem Kept.released (kept : engine.Kept) (other : engine.phase ≠ .plugged) :
    engine.poller.Released := by
  cases phase : engine.phase with
  | built =>
      rw [Kept, phase] at kept
      exact kept
  | plugged => exact absurd phase other
  | terminated =>
      rw [Kept, phase] at kept
      exact kept

omit [DecidableEq τ] in
/-- A timer that fires leaves the engine as if it had not been set. -/
theorem registered_fire_rx (kept : engine.Kept) (set : .rx ∈ engine.poller.timers)
    (plugged : engine.phase = .plugged) :
    (engine.poller.fire .rx).Registered (fun _ => true) (fun _ => false) [.status] := by
  obtain ⟨registered, -⟩ := kept.registered plugged
  cases timer : engine.hasRxTimer with
  | true =>
      rw [if_pos timer] at registered
      exact registered.fire
  | false =>
      rw [if_neg (by simp [timer])] at registered
      simpa using registered.timers.mem_iff.mp set

omit [DecidableEq τ] in
/-- The status timer is set again when it has fired. -/
theorem registered_status (registered : engine.poller.Registered (fun _ => true) (fun _ => false)
      (if engine.hasRxTimer then [.rx, .status] else [.status])) :
    ((engine.poller.fire .status).addTimer (kStatusReportInterval * 1000) .status).Registered
      (fun _ => true) (fun _ => false)
      (if engine.hasRxTimer then [.rx, .status] else [.status]) := by
  have later : (0 : Int) ≤ kStatusReportInterval * 1000 := by decide
  cases timer : engine.hasRxTimer with
  | true =>
      rw [if_pos timer] at registered
      have fired := (registered.congr (List.Perm.swap ..)).fire
      exact (fired.addTimer later .status).congr (List.Perm.swap ..)
  | false =>
      rw [if_neg (by simp [timer])] at registered
      exact registered.fire.addTimer later .status

omit [DecidableEq τ] in
theorem released_terminate (registered : engine.poller.Registered (fun _ => true) (fun _ => false)
      (if engine.hasRxTimer then [.rx, .status] else [.status])) :
    engine.terminate.poller.Released ∧ engine.terminate.hasRxTimer = false := by
  obtain ⟨cancelled, unset⟩ := registered_cancelRxTimer
    { engine with receiver.peers := fun _ => none } registered
  exact ⟨cancelled.cancelTimer.removeHandles (by decide) (by rintro (_ | _) <;> decide), unset⟩

theorem Follows.exec (follows : Follows options msgvLen given deliveries engine)
    {event : ReceiverEvent τ} (enabled : engine.Enabled event) {more : List (Delivery τ)}
    {next : ReceiverEngine τ} {fuel : Nat} (done : engine.exec options fuel event =
      some (more, next)) :
    Follows options msgvLen (given ++ givenAt event) (deliveries ++ more) next := by
  obtain ⟨idle, len, kept, unset, quiet, receiver, worked, same⟩ := follows
  have live : engine.phase = .plugged → engine.receiver = receiver := fun plugged =>
    same.resolve_left (by simp [plugged])
  cases event with
  | plug =>
      obtain ⟨rfl, rfl⟩ := Prod.mk.inj (Option.some_inj.mp done)
      have built : engine.phase = .built := enabled
      rw [givenAt, List.append_nil, List.append_nil]
      refine ⟨idle, len, kept.plug built (unset (by simp [built])) (quiet built), nofun, nofun,
        receiver, worked, Or.inr (same.resolve_left (by simp [built]))⟩
  | input handle surroundings =>
      obtain ⟨polled, sound⟩ := enabled
      have plugged : engine.phase = .plugged := by
        by_contra other
        simp [(kept.released other).pollin handle] at polled
      rw [givenAt, ← map_fst_arrivalsAt]
      exact Follows.inEvent engine idle len plugged (kept.registered plugged).1
        (live plugged ▸ worked)
        sound done
  | output handle => cases done
  | timer timer surroundings =>
      obtain ⟨set, sound⟩ := enabled
      have plugged : engine.phase = .plugged := by
        by_contra other
        simp [(kept.released other).timers] at set
      cases timer with
      | rx =>
          rw [givenAt, ← map_fst_arrivalsAt]
          exact Follows.inEvent
              { engine with
                poller := engine.poller.fire .rx
                hasRxTimer := false }
            idle len plugged (registered_fire_rx kept set plugged) (live plugged ▸ worked)
            sound done
      | status =>
          obtain ⟨rfl, rfl⟩ := Prod.mk.inj (Option.some_inj.mp done)
          obtain ⟨registered, waiting⟩ := kept.registered plugged
          rw [givenAt, List.append_nil, List.append_nil]
          refine ⟨idle, len, ?_, fun other => absurd plugged other, ?_, receiver, worked,
            Or.inr (live plugged)⟩
          · simp only [Kept, plugged]
            exact ⟨registered_status registered, waiting⟩
          · intro built
            simp [plugged] at built
  | terminate =>
      obtain ⟨rfl, rfl⟩ := Prod.mk.inj (Option.some_inj.mp done)
      have plugged : engine.phase = .plugged := enabled
      obtain ⟨released, cancelled⟩ := released_terminate (kept.registered plugged).1
      obtain ⟨socket, -⟩ :=
        ReceiverEngine.cancelRxTimer_keeps
          { engine with receiver.peers := fun _ => none }
      rw [givenAt, List.append_nil, List.append_nil]
      refine ⟨?_, ?_, released, fun _ => cancelled, nofun, receiver, worked, Or.inl rfl⟩
      · exact socket ▸ idle
      · exact socket ▸ len

theorem Lives.follows (lives : Lives options msgvLen given deliveries engine) :
    Follows options msgvLen given deliveries engine := by
  induction lives with
  | built => exact follows_init options msgvLen
  | event event _ enabled done ih => exact ih.exec enabled done

/-- A parser that takes everything, and a factory. -/
def heedless : ReceiverOptions := ⟨fun _ => 0, true⟩

/-- OpenPGM gives one datagram each time, which asks for an `inc_apply`. -/
def oneDatagram : Surroundings Nat where
  recv _ := ⟨.normal, [(5, [0, 128, 7, 0, 0, 0, 1, 2])], 8⟩
  clock _ := 0
  remaining := ⟨0, 0⟩

theorem sound_oneDatagram {engine : ReceiverEngine Nat} (room : engine.socket.msgvLen = 1) :
    engine.Sound oneDatagram := by
  intro call
  refine ⟨⟨Or.inl rfl, fun _ => ⟨by simp [oneDatagram], ?_, rfl⟩, nofun, nofun, ?_⟩, ?_⟩
  · rw [room]
    exact Nat.le_refl 1
  · simp [oneDatagram]
  · simp [oneDatagram]

/-- A receiver that has worked off a datagram, and whose status timer has fired. -/
theorem lives_oneDatagram : ∃ deliveries engine,
    Lives heedless 1 [(5, [0, 128, 7, 0, 0, 0, 1, 2])] deliveries engine ∧
      engine.phase = .plugged ∧ deliveries.length = 3 := by
  have ran : (init 1 : ReceiverEngine Nat).exec heedless 0 .plug =
      some ([], (init 1 : ReceiverEngine Nat).plug) := rfl
  have plugged : Lives heedless 1 [] [] (init 1 : ReceiverEngine Nat).plug :=
    .event .plug .built rfl ran
  have heard : ∃ deliveries engine, (init 1 : ReceiverEngine Nat).plug.exec heedless 3
      (.input .socket oneDatagram) = some (deliveries, engine) ∧
      .status ∈ engine.poller.timers ∧ engine.socket.msgvLen = 1 ∧ deliveries.length = 3 ∧
      ∃ next, engine.exec heedless 0 (.timer .status oneDatagram) = some ([], next) ∧
        next.phase = .plugged := by
    refine ⟨_, _, rfl, ?_⟩
    exact ⟨List.mem_of_elem_eq_true rfl, rfl, rfl, _, rfl, rfl⟩
  obtain ⟨deliveries, engine, ran, set, room, three, next, told, phase⟩ := heard
  have taken := Lives.event (.input .socket oneDatagram) plugged
    ⟨rfl, sound_oneDatagram rfl⟩ ran
  have again := Lives.event (.timer .status oneDatagram) taken
    ⟨set, sound_oneDatagram room⟩ told
  exact ⟨_, next, again, phase, by simpa using three⟩

/-! ## Results -/

/-- A receiver works off every datagram that OpenPGM gives it, each once and in order, whatever the
poller calls it for and however many datagrams come at once; and `InEvent` always returns. -/
theorem datagrams_worked_off (lives : Lives options msgvLen given deliveries engine) :
    (∃ arrivals receiver, arrivals.map Prod.fst = given ∧
        PGMReceiver.init.inEvent options (receptionsOf arrivals) = some (deliveries, receiver) ∧
        (engine.phase ≠ .terminated → engine.receiver = receiver)) ∧
      ∀ surroundings, engine.Sound surroundings →
        Leaves (readPass options surroundings) ⟨engine.cancelRxTimer, 0, 0, []⟩
          (engine.inEventResult options surroundings) := by
  have follows := lives.follows
  obtain ⟨receiver, ⟨arrivals, all, ran⟩, same⟩ := follows.worked
  exact ⟨⟨arrivals, receiver, all, ran, same.resolve_left⟩,
    fun surroundings sound => leaves_inEvent follows.idle sound⟩

theorem datagrams_worked_off_oneDatagram : ∃ (deliveries : List (Delivery Nat)) (arrivals : _)
    (receiver : PGMReceiver Nat),
    deliveries.length = 3 ∧ arrivals.map Prod.fst = [(5, [0, 128, 7, 0, 0, 0, 1, 2])] ∧
      PGMReceiver.init.inEvent heedless (receptionsOf arrivals) = some (deliveries, receiver) := by
  obtain ⟨deliveries, engine, lives, -, three⟩ := lives_oneDatagram
  obtain ⟨⟨arrivals, receiver, given, worked, -⟩, -⟩ := datagrams_worked_off lives
  exact ⟨deliveries, arrivals, receiver, three, given, worked⟩

/-- A receiver keeps to what the poller provides for.  While it is plugged it polls both handles for
input and none for output, has the status timer set, and the receive timer just if the last call of
`pgm_recvmsgv` has told how long to wait; before and after, nothing of it is left registered. -/
theorem receiver_registrations
    (lives : Lives options msgvLen given deliveries engine) :
    engine.poller.misused = false ∧
      (engine.phase = .plugged → (∀ handle, engine.poller.handles handle = true ∧
          engine.poller.pollin handle = true ∧ engine.poller.pollout handle = false) ∧
        engine.poller.timers.Nodup ∧ .status ∈ engine.poller.timers ∧
        (.rx ∈ engine.poller.timers ↔ engine.Waiting)) ∧
      (engine.phase ≠ .plugged → engine.poller.Released) := by
  have follows := lives.follows
  by_cases plugged : engine.phase = .plugged
  · obtain ⟨registered, waiting⟩ := follows.kept.registered plugged
    refine ⟨registered.proper, fun _ => ⟨fun handle => ⟨registered.handles handle, ?_, ?_⟩, ?_, ?_,
      ?_⟩, fun other => absurd plugged other⟩
    · rw [registered.pollin]
    · rw [registered.pollout]
    · rw [registered.timers.nodup_iff]
      split <;> decide
    · rw [registered.timers.mem_iff]
      split <;> decide
    · rw [registered.timers.mem_iff, ← waiting]
      split <;> simp_all
  · have released := follows.kept.released plugged
    exact ⟨released.proper, fun other => absurd other plugged, fun _ => released⟩

theorem receiver_registrations_oneDatagram : ∃ engine : ReceiverEngine Nat,
    engine.phase = .plugged ∧ engine.poller.misused = false ∧
      (.rx ∈ engine.poller.timers ↔ engine.Waiting) := by
  obtain ⟨deliveries, engine, lives, plugged, -⟩ := lives_oneDatagram
  obtain ⟨proper, registered, -⟩ := receiver_registrations lives
  exact ⟨engine, plugged, proper, (registered plugged).2.2.2⟩

end ReceiverEngine

end FlashForwarder
