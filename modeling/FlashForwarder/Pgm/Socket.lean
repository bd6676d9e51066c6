import FlashForwarder.Library.ByteMemory
import FlashForwarder.Library.Loop
import FlashForwarder.Pgm.Receiver

/-!
# The PGM socket

`PGMSocket` takes datagrams from OpenPGM by the vector and gives them to the engine one by one.
OpenPGM itself is outside the source: what its calls come to is a parameter.  A failed assertion is
no result.
-/

namespace FlashForwarder

open ProgramLoop

/-- The status that OpenPGM returns. -/
inductive IoStatus where
  | error
  | normal
  | reset
  | fin
  | eof
  | wouldBlock
  | rateLimited
  | timerPending
  | congestion
  deriving DecidableEq, Repr

/-- The return codes of the socket. -/
inductive ReturnCode where
  /-- `0` -/
  | ok
  /-- `VSS_TIMEOUT` -/
  | timeout
  /-- `VSS_BUSY` -/
  | busy
  /-- `VSS_NOMEM` -/
  | nomem
  /-- `VSS_DATA_LOST` -/
  | dataLost
  deriving DecidableEq, Repr

/-- What a call of `pgm_recvmsgv` leaves behind. -/
structure RecvResult (τ : Type) where
  /-- What it returns. -/
  status : IoStatus
  /-- The vector as it was filled: one datagram each, and its TSI. -/
  messages : List (τ × List UInt8)
  /-- `_bytes_read` -/
  bytesRead : Nat

/-- The bytes of a vector. -/
def bytesOf {τ : Type} (messages : List (τ × List UInt8)) : Nat :=
  (messages.map fun message => message.2.length).sum

/-- What is known of `pgm_recvmsgv` for a vector of this size, and what the code takes for granted.
The length of a datagram is kept in 16 bits. -/
structure RecvResult.Documented {τ : Type} (result : RecvResult τ) (msgvLen : Nat) : Prop where
  status : result.status = .normal ∨ result.status = .reset ∨ result.status = .wouldBlock ∨
    result.status = .rateLimited ∨ result.status = .timerPending
  filled : result.status = .normal → result.messages ≠ [] ∧ result.messages.length ≤ msgvLen ∧
    result.bytesRead = bytesOf result.messages
  nothing : result.status ≠ .normal → result.bytesRead = 0
  lost : result.status = .reset → result.messages ≠ []
  short : ∀ message ∈ result.messages, message.2.length < 65536

/-- `PGM_RATE_REMAIN` and `PGM_TIME_REMAIN`, in milliseconds. -/
structure Remaining where
  rate : Nat
  time : Nat

/-- The members of `PGMSocket` that are used after `Init`. -/
structure PGMSocket (τ : Type) where
  /-- `last_rx_status_` -/
  lastRxStatus : IoStatus
  /-- `last_tx_status_` -/
  lastTxStatus : IoStatus
  /-- The elements of `pgm_msgv_` that were filled. -/
  msgv : List (τ × List UInt8)
  /-- `pgm_msgv_len_` -/
  msgvLen : Nat
  /-- `nbytes_rec_` -/
  nbytesRec : Nat
  /-- `nbytes_processed_` -/
  nbytesProcessed : Nat
  /-- `pgm_msgv_processed_` -/
  msgvProcessed : Nat

/-- What `Receive` gives. -/
structure Receipt (τ : Type) where
  /-- The return value. -/
  rc : ReturnCode
  /-- `*o_received_bytes` -/
  received : Int
  /-- `**tsi` and the bytes behind `*raw_data`, when there is a datagram. -/
  data : Option (τ × List UInt8)

namespace PGMSocket

variable {τ : Type} (socket : PGMSocket τ)

/-- The socket after `Init`. -/
def init (msgvLen : Nat) : PGMSocket τ := ⟨.error, .error, [], msgvLen, 0, 0, 0⟩

/-- Reset all the counters. -/
def rewind : PGMSocket τ :=
  { socket with nbytesRec := 0, nbytesProcessed := 0, msgvProcessed := 0 }

/-- The next element of the vector is given. -/
def next : Option (Receipt τ × PGMSocket τ) := do
  if socket.nbytesRec = 0 then none
  let (tsi, bytes) ← socket.msgv[socket.msgvProcessed]?
  if socket.msgvLen < socket.msgvProcessed + 1 then none
  return (⟨.ok, toInt32 bytes.length, some (tsi, bytes)⟩,
    { socket with
      msgvProcessed := socket.msgvProcessed + 1
      nbytesProcessed := socket.nbytesProcessed + bytes.length })

/-- What is made of the status of `pgm_recvmsgv`. -/
def take (result : RecvResult τ) : Option (Receipt τ × PGMSocket τ) :=
  let socket :=
    { socket with
      msgv := result.messages
      nbytesRec := result.bytesRead
      lastRxStatus := result.status }
  match result.status with
  | .timerPending => if socket.nbytesRec = 0 then some (⟨.busy, 0, none⟩, socket) else none
  | .rateLimited => if socket.nbytesRec = 0 then some (⟨.nomem, 0, none⟩, socket) else none
  | .wouldBlock => if socket.nbytesRec = 0 then some (⟨.timeout, 0, none⟩, socket) else none
  | .reset => do
      let (_, _) ← socket.msgv[0]?
      return (⟨.dataLost, -1, none⟩, { socket with nbytesRec := 0 })
  | .normal => socket.next
  | .error | .fin | .eof | .congestion => none

/-- Whether `Receive` has nothing left to give, and calls `pgm_recvmsgv`. -/
def drained : Bool := socket.nbytesRec = socket.nbytesProcessed ∧ ¬0 < socket.nbytesRec

/-- `Receive`; `result` is what `pgm_recvmsgv` leaves behind if it is called. -/
def receive (result : RecvResult τ) : Option (Receipt τ × PGMSocket τ) :=
  if socket.nbytesRec = socket.nbytesProcessed ∧ 0 < socket.nbytesRec then
    some (⟨.timeout, 0, none⟩, socket.rewind)
  else if socket.nbytesRec = socket.nbytesProcessed then
    if socket.msgvProcessed = 0 ∧ socket.nbytesProcessed = 0 ∧ socket.nbytesRec = 0 then
      socket.take result
    else none
  else if socket.msgvProcessed ≤ socket.msgvLen then socket.next
  else none

/-- `ProcessUpstream`; no data is expected on the sending side. -/
def processUpstream (result : RecvResult τ) : Option (ReturnCode × PGMSocket τ) :=
  if result.bytesRead = 0 then
    let socket := { socket with lastRxStatus := result.status }
    match result.status with
    | .timerPending => some (.busy, socket)
    | .rateLimited => some (.nomem, socket)
    | .wouldBlock => some (.timeout, socket)
    | _ => none
  else none

/-- `Send` of so many bytes, where `pgm_send` returns a status and has sent `nbytes`. -/
def send (dataLen : Nat) (status : IoStatus) (nbytes : Nat) :
    Option (ReturnCode × Nat × PGMSocket τ) :=
  let socket := { socket with lastTxStatus := status }
  if 0 < nbytes then
    if status = .normal ∧ nbytes = dataLen then some (.ok, nbytes, socket) else none
  else
    match status with
    | .rateLimited => some (.nomem, 0, socket)
    | .wouldBlock => some (.busy, 0, socket)
    | _ => none

/-- `GetRxTimeout` -/
def getRxTimeout (remaining : Remaining) : Int :=
  if socket.lastRxStatus ≠ .rateLimited ∧ socket.lastRxStatus ≠ .timerPending then -1
  else if socket.lastRxStatus = .rateLimited then remaining.rate
  else remaining.time

/-- `GetTxTimeout` -/
def getTxTimeout (remaining : Remaining) : Int :=
  if socket.lastTxStatus ≠ .rateLimited then -1 else remaining.rate

/-- Nothing is left of a vector. -/
structure Idle : Prop where
  nbytesRec : socket.nbytesRec = 0
  nbytesProcessed : socket.nbytesProcessed = 0
  msgvProcessed : socket.msgvProcessed = 0

/-- A vector of which `given` was given and `left` is left. -/
structure Holding (given left : List (τ × List UInt8)) : Prop where
  msgv : socket.msgv = given ++ left
  nbytesRec : socket.nbytesRec = bytesOf (given ++ left)
  nbytesProcessed : socket.nbytesProcessed = bytesOf given
  msgvProcessed : socket.msgvProcessed = given.length
  room : socket.msgv.length ≤ socket.msgvLen
  some_given : 0 < bytesOf given

/-- The socket once all that a call of `pgm_recvmsgv` has left behind was given. -/
def after (result : RecvResult τ) : PGMSocket τ where
  lastRxStatus := result.status
  lastTxStatus := socket.lastTxStatus
  msgv := result.messages
  msgvLen := socket.msgvLen
  nbytesRec := 0
  nbytesProcessed := 0
  msgvProcessed := 0

variable {socket}

theorem idle_init (msgvLen : Nat) : (init msgvLen : PGMSocket τ).Idle := ⟨rfl, rfl, rfl⟩

theorem idle_after (result : RecvResult τ) : (socket.after result).Idle := ⟨rfl, rfl, rfl⟩

theorem bytesOf_append (front back : List (τ × List UInt8)) :
    bytesOf (front ++ back) = bytesOf front + bytesOf back := by
  simp [bytesOf]

/-! ## One call of `Receive` -/

theorem next_eq (given : List (τ × List UInt8)) {left : List (τ × List UInt8)} {tsi : τ}
    {bytes : List UInt8}
    (msgv : socket.msgv = given ++ (tsi, bytes) :: left)
    (processed : socket.msgvProcessed = given.length)
    (received : socket.nbytesRec ≠ 0) (room : socket.msgv.length ≤ socket.msgvLen)
    (short : bytes.length < 65536) :
    socket.next = some (⟨.ok, bytes.length, some (tsi, bytes)⟩,
      { socket with
        msgvProcessed := given.length + 1
        nbytesProcessed := socket.nbytesProcessed + bytes.length }) := by
  have here : socket.msgv[socket.msgvProcessed]? = some (tsi, bytes) := by
    rw [msgv, processed, List.getElem?_append_right (Nat.le_refl _), Nat.sub_self]
    rfl
  have fits : ¬socket.msgvLen < socket.msgvProcessed + 1 := by
    rw [msgv, List.length_append, List.length_cons] at room
    omega
  rw [next, if_neg received, here]
  simp only [Option.bind_eq_bind, Option.bind_some, Option.pure_def]
  rw [if_neg fits, toInt32_natCast (by omega), processed]

/-- A vector that has just come gives its first datagram. -/
theorem Idle.receive_normal (idle : socket.Idle) {result : RecvResult τ}
    (documented : result.Documented socket.msgvLen) (normal : result.status = .normal)
    {tsi : τ} {bytes : List UInt8} {left : List (τ × List UInt8)}
    (messages : result.messages = (tsi, bytes) :: left) (nonempty : bytes ≠ []) :
    ∃ next, socket.receive result = some (⟨.ok, bytes.length, some (tsi, bytes)⟩, next) ∧
      next.Holding [(tsi, bytes)] left ∧ next.rewind = socket.after result := by
  obtain ⟨-, few, counted⟩ := documented.filled normal
  have positive : 0 < bytes.length := List.length_pos_iff.mpr nonempty
  have total : bytesOf result.messages = bytes.length + bytesOf left := by
    simp [messages, bytesOf]
  have short : bytes.length < 65536 := documented.short (tsi, bytes) (by simp [messages])
  rw [receive, if_neg (by rw [idle.nbytesRec]; omega),
    if_pos (idle.nbytesRec.trans idle.nbytesProcessed.symm),
    if_pos ⟨idle.msgvProcessed, idle.nbytesProcessed, idle.nbytesRec⟩, take, normal]
  dsimp only
  refine ⟨_, next_eq [] messages idle.msgvProcessed (by dsimp only; omega) few short,
    ⟨messages, ?_, ?_, rfl, few, ?_⟩, ?_⟩
  · dsimp only
    rw [counted, messages]
    rfl
  · dsimp only
    rw [idle.nbytesProcessed]
    simp [bytesOf]
  · simpa [bytesOf] using positive
  · rw [rewind, after, normal]

/-- A vector gives what is left of it, datagram by datagram. -/
theorem Holding.receive {given left : List (τ × List UInt8)} {tsi : τ} {bytes : List UInt8}
    (holding : socket.Holding given ((tsi, bytes) :: left)) (nonempty : bytes ≠ [])
    (short : bytes.length < 65536) (result : RecvResult τ) :
    ∃ next, socket.receive result = some (⟨.ok, bytes.length, some (tsi, bytes)⟩, next) ∧
      next.Holding (given ++ [(tsi, bytes)]) left ∧ next.rewind = socket.rewind := by
  have positive : 0 < bytes.length := List.length_pos_iff.mpr nonempty
  have total : socket.nbytesRec = bytesOf given + (bytes.length + bytesOf left) := by
    rw [holding.nbytesRec, bytesOf_append]
    simp [bytesOf]
  have some_left : ¬socket.nbytesRec = socket.nbytesProcessed := by
    rw [holding.nbytesProcessed]
    omega
  have room := holding.room
  have fits : socket.msgvProcessed ≤ socket.msgvLen := by
    rw [holding.msgv, List.length_append] at room
    rw [holding.msgvProcessed]
    omega
  rw [PGMSocket.receive, if_neg (fun both => some_left both.1), if_neg some_left, if_pos fits,
    next_eq given holding.msgv holding.msgvProcessed (by omega) room short]
  refine ⟨_, rfl, ⟨?_, ?_, ?_, ?_, room, ?_⟩, rfl⟩
  · simpa using holding.msgv
  · simpa using holding.nbytesRec
  · dsimp only
    rw [holding.nbytesProcessed, bytesOf_append]
    simp [bytesOf]
  · simp
  · rw [bytesOf_append]
    exact Nat.add_pos_left holding.some_given _

/-- After the last datagram of a vector there is a call that gives nothing. -/
theorem Holding.receive_end {given : List (τ × List UInt8)} (holding : socket.Holding given [])
    (result : RecvResult τ) :
    socket.receive result = some (⟨.timeout, 0, none⟩, socket.rewind) := by
  have all : socket.nbytesRec = bytesOf given := by simpa using holding.nbytesRec
  rw [PGMSocket.receive,
    if_pos ⟨all.trans holding.nbytesProcessed.symm, by rw [all]; exact holding.some_given⟩]

/-- The return code for a status without data. -/
def codeOf : IoStatus → ReturnCode
  | .timerPending => .busy
  | .rateLimited => .nomem
  | .reset => .dataLost
  | _ => .timeout

theorem Idle.receive_quiet (idle : socket.Idle) {result : RecvResult τ}
    (documented : result.Documented socket.msgvLen) (quiet : result.status ≠ .normal) :
    socket.receive result =
      some (⟨codeOf result.status, if result.status = .reset then -1 else 0, none⟩,
        socket.after result) := by
  have none_read := documented.nothing quiet
  rw [receive, if_neg (by rw [idle.nbytesRec]; omega),
    if_pos (idle.nbytesRec.trans idle.nbytesProcessed.symm),
    if_pos ⟨idle.msgvProcessed, idle.nbytesProcessed, idle.nbytesRec⟩, take, after]
  rcases documented.status with status | status | status | status | status
  · exact absurd status quiet
  · cases messages : result.messages with
    | nil => exact absurd messages (documented.lost status)
    | cons first left =>
        simp [status, codeOf, idle.nbytesProcessed, idle.msgvProcessed]
  all_goals simp [status, none_read, codeOf, idle.nbytesProcessed, idle.msgvProcessed]

/-! ## Timeouts -/

/-- The time that is left is asked for after a status that has one. -/
theorem getRxTimeout_nonneg (remaining : Remaining)
    (waiting : socket.lastRxStatus = .rateLimited ∨ socket.lastRxStatus = .timerPending) :
    0 ≤ socket.getRxTimeout remaining := by
  rw [getRxTimeout]
  rcases waiting with status | status <;> simp [status]

theorem getTxTimeout_nonneg {remaining : Remaining} (waiting : socket.lastTxStatus = .rateLimited) :
    0 ≤ socket.getTxTimeout remaining := by
  rw [getTxTimeout, if_neg (not_not_intro waiting)]
  exact Int.natCast_nonneg _

end PGMSocket

end FlashForwarder
