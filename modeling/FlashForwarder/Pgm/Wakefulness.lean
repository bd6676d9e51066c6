import FlashForwarder.Pgm.PushEnd
import FlashForwarder.Pgm.SelfDescription

/-!
# The sender does not stall

The pipe between the pushing thread and `OutEvent`, with its wake-up flag, and the `RESTART_OUTPUT`
commands on their way.  The pushing thread goes on between two calls of the sender's handlers, and
before each `Read` in them.
-/

namespace FlashForwarder

open ProgramLoop

/-- A step of the pushing thread. -/
inductive PushStep where
  /-- A call begins. -/
  | call (call : PushCall)
  /-- The call writes its next message to the pipe. -/
  | write
  /-- The call sends the command, having been told to awake the peer. -/
  | sendCommand

/-- The pipe, the pushing thread, and the commands. -/
structure Feed where
  /-- The members that the pushing thread uses. -/
  pushEnd : PushEnd
  /-- The messages that its call has still to write. -/
  pending : List PushedMessage
  /-- It is about to send `TYPE_RESTART_OUTPUT`. -/
  obliged : Bool
  /-- The commands that were sent and have not arrived. -/
  restarts : Nat
  /-- The messages in the pipe. -/
  flushed : List PushedMessage
  /-- The last `Read` has found the pipe empty, and nothing was written since. -/
  asleep : Bool
  /-- What the pushing thread does before each `Read` of the handler that runs. -/
  arrivals : List (List PushStep)

namespace Feed

variable (feed : Feed)

/-- What a step of the pushing thread does; it does not begin a call before the last one returns. -/
def act : PushStep → Feed
  | .call call =>
      if feed.pending = [] ∧ feed.obliged = false then
        { feed with
          pushEnd := (feed.pushEnd.exec call).pushEnd
          pending := (feed.pushEnd.exec call).written }
      else feed
  | .write =>
      match feed.obliged, feed.pending with
      | false, msg :: pending =>
          { feed with
            pending := pending
            flushed := feed.flushed ++ [msg]
            obliged := feed.asleep
            asleep := false }
      | _, _ => feed
  | .sendCommand =>
      if feed.obliged then { feed with obliged := false, restarts := feed.restarts + 1 } else feed

/-- `Read(0, &msg)` of the queue as it is. -/
def take : Option (List UInt8) × Feed :=
  match feed.flushed with
  | [] => (none, { feed with asleep := true })
  | msg :: flushed => (some msg.content, { feed with flushed := flushed })

/-- `Read(0, &msg)`, after what the pushing thread does before it. -/
def read : Option (List UInt8) × Feed :=
  ((feed.arrivals.headD []).foldl act { feed with arrivals := feed.arrivals.tail }).take

theorem take_none (none : feed.take.1 = none) :
    feed.take.2.flushed = [] ∧ feed.take.2.asleep = true := by
  unfold take at none ⊢
  cases empty : feed.flushed with
  | nil => exact ⟨rfl, rfl⟩
  | cons msg flushed => simp [empty] at none

/-- A `Read` that fails has found the pipe empty and puts the reader to sleep. -/
theorem read_none (none : feed.read.1 = none) :
    feed.read.2.flushed = [] ∧ feed.read.2.asleep = true :=
  take_none _ none

end Feed

/-- What a sender is built from that reads from such a pipe; packets have room for some bytes. -/
structure FedOptions (σ : Type) extends SenderOptions σ Feed where
  read_eq : read = Feed.read
  headerSize_lt : headerSize < outBufferSize

namespace PGMSender

variable {σ : Type} (options : FedOptions σ)

section

variable (sender : PGMSender σ Feed)

/-- The poller calls `OutEvent` if it polls for output, a command arrives if there is one, and a
timer fires if it is set. -/
def Enabled : SenderEvent → Prop
  | .outEvent => sender.pollout = true
  | .restartOutput => 0 < sender.ioPipe.restarts
  | .txTimer => sender.hasTxTimer = true

/-- A handler is called; `arrivals` is what the pushing thread will do before each `Read`. -/
def called (event : SenderEvent) (arrivals : List (List PushStep)) : PGMSender σ Feed :=
  let restarts := match event with
    | .restartOutput => sender.ioPipe.restarts - 1
    | .outEvent | .txTimer => sender.ioPipe.restarts
  raised { sender with ioPipe := { sender.ioPipe with
    restarts := restarts
    arrivals := arrivals } } event

/-- There is something to send: a packet, a part of a batch, or a message in the pipe. -/
def DataPending : Prop :=
  sender.writeSize ≠ 0 ∨ sender.current ≠ none ∨ sender.ioPipe.flushed ≠ []

/-- Something will call `OutEvent`. -/
def Awake : Prop :=
  sender.pollout = true ∨ sender.hasTxTimer = true ∨ sender.ioPipe.obliged = true ∨
    0 < sender.ioPipe.restarts

/-- A sender that is not awake has nothing to send, and will be told of the next message. -/
def Wakeful : Prop :=
  sender.Awake ∨ ¬sender.DataPending ∧ sender.ioPipe.asleep = true

end

/-- The states of a sender after `Plug`, whatever was pushed before. -/
inductive Reachable : PGMSender σ Feed → Prop
  | plugged (serializer : σ) (feed : Feed) : Reachable (init serializer feed)
  | pushes {sender : PGMSender σ Feed} (step : PushStep) : Reachable sender →
      Reachable { sender with ioPipe := sender.ioPipe.act step }
  | handles {sender next : PGMSender σ Feed} {seen : Sent} {fuel : Nat} (event : SenderEvent)
      (arrivals : List (List PushStep)) (status : SendStatus) : Reachable sender →
      sender.Enabled event →
      (sender.called event arrivals).outEvent options.toSenderOptions fuel status =
        some (seen, next) → Reachable next

/-! ## Steps -/

variable {options} {sender next : PGMSender σ Feed}

/-- The pushing thread does not put the sender to sleep. -/
theorem Wakeful.act (wakeful : sender.Wakeful) (step : PushStep) :
    Wakeful { sender with ioPipe := sender.ioPipe.act step } := by
  cases step with
  | call call =>
      by_cases free : sender.ioPipe.pending = [] ∧ sender.ioPipe.obliged = false
      · simpa [Wakeful, Awake, DataPending, Feed.act, free] using wakeful
      · simpa [Wakeful, Awake, DataPending, Feed.act, free] using wakeful
  | write =>
      cases obliged : sender.ioPipe.obliged with
      | true => exact Or.inl (Or.inr (Or.inr (Or.inl (by simp [Feed.act, obliged]))))
      | false =>
          cases pending : sender.ioPipe.pending with
          | nil => simpa [Wakeful, Awake, DataPending, Feed.act, obliged, pending] using wakeful
          | cons msg rest =>
              rcases wakeful with awake | ⟨-, asleep⟩
              · refine Or.inl ?_
                rcases awake with polling | timer | owing | flying
                · exact Or.inl polling
                · exact Or.inr (Or.inl timer)
                · simp [obliged] at owing
                · refine Or.inr (Or.inr (Or.inr ?_))
                  simpa [Feed.act, obliged, pending] using flying
              · -- The flag tells the writer of the first message that the reader sleeps.
                refine Or.inl (Or.inr (Or.inr (Or.inl ?_)))
                simpa [Feed.act, obliged, pending] using asleep
  | sendCommand =>
      cases obliged : sender.ioPipe.obliged with
      | true => exact Or.inl (Or.inr (Or.inr (Or.inr (by simp [Feed.act, obliged]))))
      | false => simpa [Wakeful, Awake, DataPending, Feed.act, obliged] using wakeful

theorem raised_called_pollout {event : SenderEvent} (enabled : sender.Enabled event)
    (arrivals : List (List PushStep)) : (sender.called event arrivals).pollout = true := by
  cases event with
  | outEvent => exact enabled
  | restartOutput => rfl
  | txTimer => rfl

/-- After an attempt to send, the sender polls for output, or has set the timer. -/
theorem wakeful_send (polling : sender.pollout = true) (status : SendStatus) :
    (PGMSender.send sender status).2.Wakeful := by
  cases timer : sender.hasTxTimer <;> cases status <;>
    simp [PGMSender.send, Wakeful, Awake, timer, polling]

/-- Reading messages leaves alone what decides whether the sender is awake, but for the pipe. -/
theorem gather_keeps (options : FedOptions σ) (count : Nat) (filling : Filling σ Feed) :
    (gather options.toSenderOptions count filling).1.sender.pollout = filling.sender.pollout ∧
      (gather options.toSenderOptions count filling).1.sender.writeSize =
        filling.sender.writeSize ∧
      (gather options.toSenderOptions count filling).1.sender.current = filling.sender.current := by
  induction count generalizing filling with
  | zero => exact ⟨rfl, rfl, rfl⟩
  | succ count ih =>
      rw [gather]
      rcases options.read filling.sender.ioPipe with ⟨_ | msg, ioPipe⟩
      · exact ⟨rfl, rfl, rfl⟩
      · exact ih (PGMSender.take options.toSenderOptions filling msg ioPipe)

/-- When no message was read, the pipe was empty and the reader sleeps. -/
theorem gather_dry (options : FedOptions σ) (count : Nat) (filling : Filling σ Feed)
    (dry : (gather options.toSenderOptions (count + 1) filling).2 = false) :
    (gather options.toSenderOptions (count + 1) filling).1.sender.ioPipe.flushed = [] ∧
      (gather options.toSenderOptions (count + 1) filling).1.sender.ioPipe.asleep = true := by
  rw [gather] at dry ⊢
  rw [options.read_eq] at dry ⊢
  cases read : filling.sender.ioPipe.read with
  | mk msg ioPipe =>
      rw [read] at dry
      cases msg with
      | none =>
          have found := filling.sender.ioPipe.read_none (by rw [read])
          rwa [read] at found
      | some msg => simp at dry

theorem copy_keeps {filling : Filling σ Feed} (batch : List UInt8)
    (polling : filling.sender.pollout = true ∧ filling.sender.writeSize = 0) :
    (copy options.toSenderOptions filling batch).sender.pollout = true ∧
      (copy options.toSenderOptions filling batch).sender.writeSize = 0 := by
  rw [copy]
  dsimp only
  split <;> exact polling

/-- While a packet is filled the sender polls for output; nothing is filled in only if there is
nothing, and the reader sleeps. -/
theorem pass_keeps {filling : Filling σ Feed}
    (polling : filling.sender.pollout = true ∧ filling.sender.writeSize = 0) :
    (pass options.toSenderOptions filling).Keeps
      (fun filling => filling.sender.pollout = true ∧ filling.sender.writeSize = 0)
      (fun filling => filling.sender.pollout = true ∧ (filling.payload = [] →
        ¬filling.sender.DataPending ∧ filling.sender.ioPipe.asleep = true)) := by
  obtain ⟨polls, ready⟩ := polling
  have room_pos : 0 < room options.toSenderOptions := Nat.sub_pos_of_lt options.headerSize_lt
  rw [pass]
  split
  · split
    · exact copy_keeps _ ⟨polls, ready⟩
    · rename_i current
      obtain ⟨polls', ready', current'⟩ := gather_keeps options kMaxMessagePerTime filling
      have dry := gather_dry options 49 filling
      rw [show 49 + 1 = kMaxMessagePerTime from rfl] at dry
      generalize gather options.toSenderOptions kMaxMessagePerTime filling = gathered at *
      obtain ⟨gathered, available⟩ := gathered
      cases available with
      | true => exact copy_keeps _ ⟨polls'.trans polls, ready'.trans ready⟩
      | false =>
          obtain ⟨empty, asleep⟩ := dry rfl
          refine ⟨polls'.trans polls, fun _ => ⟨?_, asleep⟩⟩
          rintro (packet | batch | message)
          · exact packet (ready'.trans ready)
          · exact batch (current'.trans current)
          · exact message empty
  · rename_i full
    refine ⟨polls, fun empty => ?_⟩
    rw [empty] at full
    exact absurd room_pos full

/-- A handler leaves the sender polling for output, or waiting for its timer or for the pipe. -/
theorem wakeful_outEvent (polling : sender.pollout = true) {fuel : Nat} {status : SendStatus}
    {seen : Sent} (done : sender.outEvent options.toSenderOptions fuel status = some (seen, next)) :
    next.Wakeful := by
  rw [PGMSender.outEvent] at done
  split at done
  · rename_i ready
    obtain ⟨filling, ran, ended⟩ := Option.bind_eq_some_iff.mp done
    have left : Leaves (pass options.toSenderOptions) (PGMSender.start _ sender) filling :=
      ⟨fuel, ran⟩
    obtain ⟨polling', nothing⟩ := left.keeps (fun _ => pass_keeps) ⟨polling, ready⟩
    split at ended
    · rename_i empty
      obtain ⟨rfl, rfl⟩ := Prod.mk.inj (Option.some_inj.mp ended)
      exact Or.inr (nothing empty)
    · obtain ⟨-, rfl⟩ := Prod.mk.inj (Option.some_inj.mp ended)
      have polls : (packed filling).pollout = true := polling'
      exact wakeful_send polls status
  · obtain ⟨-, rfl⟩ := Prod.mk.inj (Option.some_inj.mp done)
    exact wakeful_send polling status

theorem Reachable.wakeful (reachable : Reachable options sender) : sender.Wakeful := by
  induction reachable with
  | plugged serializer feed => exact Or.inl (Or.inl rfl)
  | pushes step _ ih => exact ih.act step
  | handles event arrivals status _ enabled done _ =>
      exact wakeful_outEvent (raised_called_pollout enabled arrivals) done

/-- The sender never stalls with data pending: between two calls of its handlers it is awake, and
within them it polls for output. -/
theorem never_stalls (reachable : Reachable options sender) :
    (sender.DataPending → sender.Awake) ∧
      ∀ event, sender.Enabled event → ∀ arrivals filling,
        Reaches (pass options.toSenderOptions)
          (start options.toSenderOptions (sender.called event arrivals)) filling →
        (sender.called event arrivals).writeSize = 0 → filling.sender.pollout = true := by
  constructor
  · intro pending
    rcases reachable.wakeful with awake | ⟨nothing, -⟩
    · exact awake
    · exact absurd pending nothing
  · intro event enabled arrivals filling reached ready
    exact (reached.keeps (fun _ => pass_keeps)
      ⟨raised_called_pollout enabled arrivals, ready⟩).1

/-- Batches are the messages as they are, each followed by a zero. -/
def plainOptions : FedOptions (List UInt8) where
  outBufferSize := 1000
  headerSize_le := by decide
  outBufferSize_le := by decide
  compressLevel := 0
  serialize := fun serializer msg => serializer ++ msg
  onIncrement := none
  flush := fun serializer => (serializer ++ [0], [])
  read := Feed.read
  read_eq := rfl
  headerSize_lt := by decide

/-- A pipe with nothing in it. -/
def quietFeed : Feed := ⟨⟨900, by decide, none, 0, false⟩, [], false, 0, [], false, []⟩

/-- `OutEvent` finds the pipe empty while the pushing thread begins to write. -/
def surprised : PGMSender (List UInt8) Feed :=
  { init [] { quietFeed with
      flushed := [⟨[1, 2], 2, 1024, 0⟩]
      obliged := true } with pollout := false }

/-- The message came when the reader slept, and the writer will send the command. -/
theorem never_stalls_surprised : surprised.DataPending ∧ surprised.Awake := by
  have first : Reachable plainOptions (init [] quietFeed) := .plugged [] quietFeed
  have dry : (init [] quietFeed).outEvent plainOptions.toSenderOptions 1 .normal =
      some (⟨[], none⟩, { init [] { quietFeed with asleep := true } with pollout := false }) := rfl
  have slept : Reachable plainOptions
      { init [] { quietFeed with asleep := true } with pollout := false } :=
    .handles .outEvent [] .normal first rfl dry
  have pushed : Reachable plainOptions surprised :=
    .pushes .write (.pushes (.call .endPush)
      (.pushes (.call (.pushMessage ⟨[1, 2], by decide⟩)) slept))
  have pending : surprised.DataPending := Or.inr (Or.inr (List.cons_ne_nil _ _))
  exact ⟨pending, (never_stalls pushed).1 pending⟩

end PGMSender

end FlashForwarder
