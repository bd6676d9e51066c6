import FlashForwarder.Pgm.Sender

/-!
# A sender seen through functions

What `OutEvent` does depends on the serialiser and the pipe only through what they answer.  If a
serialiser and a pipe keep more than others do, and answer alike, then a sender with the former,
less what they keep in addition, is a sender with the latter.
-/

namespace FlashForwarder

open ProgramLoop

variable {σ π σ' π' : Type}

/-- A message is handed to the serialiser, or to the increment session over it. -/
def SenderOptions.put (options : SenderOptions σ π) : σ → List UInt8 → σ :=
  options.onIncrement.getD options.serialize

/-- The serialiser and the pipe of one sender, seen through two functions, are those of another. -/
structure SenderOptions.SeenAs (options : SenderOptions σ π) (other : SenderOptions σ' π')
    (view : σ → σ') (pipeView : π → π') : Prop where
  outBufferSize : other.outBufferSize = options.outBufferSize
  offsetMask : other.offsetMask = options.offsetMask
  put : ∀ serializer msg, other.put (view serializer) msg = view (options.put serializer msg)
  flush : ∀ serializer, other.flush (view serializer) =
    ((options.flush serializer).1, view (options.flush serializer).2)
  read : ∀ ioPipe, other.read (pipeView ioPipe) =
    ((options.read ioPipe).1, pipeView (options.read ioPipe).2)

namespace PGMSender

/-- A sender whose serialiser and pipe are seen through functions. -/
def seen (view : σ → σ') (pipeView : π → π') (sender : PGMSender σ π) : PGMSender σ' π' where
  serializer := view sender.serializer
  ioPipe := pipeView sender.ioPipe
  nextIndex := sender.nextIndex
  outBuffer := sender.outBuffer
  writeSize := sender.writeSize
  current := sender.current
  currentOffset := sender.currentOffset
  hasTxTimer := sender.hasTxTimer
  pollout := sender.pollout
  totalSent := sender.totalSent

/-- The same of the locals of `OutEvent`. -/
def Filling.seen (view : σ → σ') (pipeView : π → π') (filling : Filling σ π) : Filling σ' π' where
  sender := filling.sender.seen view pipeView
  offset := filling.offset
  payload := filling.payload
  batches := filling.batches

variable {options : SenderOptions σ π} {other : SenderOptions σ' π'} {view : σ → σ'}
  {pipeView : π → π'}

section

variable (seenAs : options.SeenAs other view pipeView)

include seenAs

theorem room_seen : room other = room options := by
  rw [room, room, seenAs.outBufferSize]

theorem take_seen (filling : Filling σ π) (msg : List UInt8) (ioPipe : π) :
    take other (filling.seen view pipeView) msg (pipeView ioPipe) =
      (take options filling msg ioPipe).seen view pipeView := by
  have put := seenAs.put filling.sender.serializer msg
  rw [SenderOptions.put, SenderOptions.put] at put
  simp only [take, marked, Filling.seen, seen, put, seenAs.offsetMask]

theorem gather_seen (count : Nat) (filling : Filling σ π) :
    gather other count (filling.seen view pipeView) =
      ((gather options count filling).1.seen view pipeView, (gather options count filling).2) := by
  induction count generalizing filling with
  | zero => rfl
  | succ count ih =>
      have read : other.read (filling.seen view pipeView).sender.ioPipe =
          ((options.read filling.sender.ioPipe).1,
            pipeView (options.read filling.sender.ioPipe).2) :=
        seenAs.read filling.sender.ioPipe
      rw [gather, gather, read]
      rcases options.read filling.sender.ioPipe with ⟨_ | msg, ioPipe⟩
      · rfl
      · dsimp only
        rw [take_seen seenAs, ih]

theorem copy_seen (filling : Filling σ π) (batch : List UInt8) :
    copy other (filling.seen view pipeView) batch =
      (copy options filling batch).seen view pipeView := by
  simp only [copy, room_seen seenAs, Filling.seen, seen]
  split <;> rfl

theorem pass_seen (filling : Filling σ π) :
    pass other (filling.seen view pipeView) =
      (pass options filling).map (Filling.seen view pipeView) (Filling.seen view pipeView) := by
  have flush : ∀ filling : Filling σ π, other.flush (filling.seen view pipeView).sender.serializer =
      ((options.flush filling.sender.serializer).1,
        view (options.flush filling.sender.serializer).2) :=
    fun filling => seenAs.flush filling.sender.serializer
  rw [pass, pass, room_seen seenAs]
  have payload : (filling.seen view pipeView).payload = filling.payload := rfl
  have current : (filling.seen view pipeView).sender.current = filling.sender.current := rfl
  rw [payload, current]
  split
  · cases filling.sender.current with
    | some batch => exact congrArg Pass.again (copy_seen seenAs filling batch)
    | none =>
        rw [gather_seen seenAs]
        generalize gather options kMaxMessagePerTime filling = gathered
        obtain ⟨filling', available⟩ := gathered
        cases available with
        | false => rfl
        | true =>
            simp only [if_true, flush]
            exact congrArg Pass.again (copy_seen seenAs
              { filling' with
                sender := { filling'.sender with
                  serializer := (options.flush filling'.sender.serializer).2
                  current := some (options.flush filling'.sender.serializer).1 }
                batches := filling'.batches ++ [(options.flush filling'.sender.serializer).1] } _)
  · rfl

omit seenAs in
theorem send_seen (sender : PGMSender σ π) (status : SendStatus) :
    (sender.seen view pipeView).send status =
      ((sender.send status).1, (sender.send status).2.seen view pipeView) := by
  cases timer : sender.hasTxTimer <;> cases status <;> simp [send, seen, timer]

/-- A call of `OutEvent` is seen as a call of `OutEvent`. -/
theorem outEvent_seen (sender : PGMSender σ π) (fuel : Nat) (status : SendStatus) :
    (sender.seen view pipeView).outEvent other fuel status =
      (sender.outEvent options fuel status).map
        fun (sent, next) => (sent, next.seen view pipeView) := by
  have start : start other (sender.seen view pipeView) =
      (start options sender).seen view pipeView := by
    simp only [PGMSender.start, Filling.seen, seenAs.offsetMask]
  have size : (sender.seen view pipeView).writeSize = sender.writeSize := rfl
  rw [outEvent, outEvent, size, start, run_map (pass_seen seenAs)]
  split
  · cases run (pass options) fuel (PGMSender.start options sender) with
    | none => rfl
    | some filling =>
        have payload : (filling.seen view pipeView).payload = filling.payload := rfl
        have packed : packed (filling.seen view pipeView) = (packed filling).seen view pipeView :=
          rfl
        simp only [Option.map_some, Option.bind_eq_bind, Option.bind_some, payload, packed,
          send_seen]
        split <;> rfl
  · rw [send_seen]
    rfl

end

end PGMSender

end FlashForwarder
