import FlashForwarder.Pgm.SenderView
import FlashForwarder.Pgm.Wakefulness

/-!
# From the pushing thread to the wire

What is pushed is collected in messages, read from the pipe, serialised in batches, and cut into
packets.  A sender with a record keeps in addition what was pushed, what was read, and which
messages went into which batch; without the record it is the sender as it is.
-/

namespace FlashForwarder

open ProgramLoop Transition

/-- What a call pushes. -/
def PushCall.contents : PushCall → List Content
  | .pushMessage content => [content]
  | .beginPush _ | .endPush => []

/-- A pipe with a record of the calls of the pushing thread and of the messages that were read. -/
structure Ledger extends Feed where
  /-- The calls. -/
  calls : List PushCall
  /-- The messages that were read. -/
  taken : List PushedMessage

namespace Ledger

variable (ledger : Ledger)

/-- The call that a step of the pushing thread makes. -/
def calledBy : PushStep → List PushCall
  | .call call => if ledger.pending = [] ∧ ledger.obliged = false then [call] else []
  | .write | .sendCommand => []

/-- What a step of the pushing thread does. -/
def act (step : PushStep) : Ledger where
  toFeed := ledger.toFeed.act step
  calls := ledger.calls ++ ledger.calledBy step
  taken := ledger.taken

/-- `Read(0, &msg)` of the queue as it is. -/
def take : Option (List UInt8) × Ledger :=
  (ledger.toFeed.take.1,
    { toFeed := ledger.toFeed.take.2
      calls := ledger.calls
      taken := ledger.taken ++ ledger.flushed.head?.toList })

/-- `Read(0, &msg)`, after what the pushing thread does before it. -/
def read : Option (List UInt8) × Ledger :=
  ((ledger.arrivals.headD []).foldl act { ledger with arrivals := ledger.arrivals.tail }).take

/-- What was pushed. -/
def contents : List Content := ledger.calls.flatMap PushCall.contents

/-- The messages that were pushed and are not read yet. -/
def unread : List PushedMessage :=
  ledger.flushed ++ ledger.pending ++ ledger.pushEnd.cacheMsg.toList

end Ledger

/-- A serialiser with a record of the messages of each batch. -/
structure Serialising (σ : Type) where
  /-- The serialiser. -/
  serializer : σ
  /-- The messages of the batches that were flushed. -/
  groups : List (List (List UInt8))
  /-- The messages since then. -/
  group : List (List UInt8)

/-- A message is serialised, and recorded. -/
def Serialising.put {σ : Type} (serialize : σ → List UInt8 → σ) (serialising : Serialising σ)
    (msg : List UInt8) : Serialising σ :=
  { serialising with
    serializer := serialize serialising.serializer msg
    group := serialising.group ++ [msg] }

namespace SenderOptions

variable {σ π : Type} (options : SenderOptions σ π)

/-- The same options, with a record. -/
def recorded : SenderOptions (Serialising σ) Ledger where
  outBufferSize := options.outBufferSize
  headerSize_le := options.headerSize_le
  outBufferSize_le := options.outBufferSize_le
  compressLevel := options.compressLevel
  serialize := Serialising.put options.serialize
  onIncrement := options.onIncrement.map Serialising.put
  flush serialising :=
    ((options.flush serialising.serializer).1,
      { serializer := (options.flush serialising.serializer).2
        groups := serialising.groups ++ [serialising.group]
        group := [] })
  read := Ledger.read

/-- The batches that groups of messages are serialised to, and the serialiser after them. -/
def replay : σ → List (List (List UInt8)) → List (List UInt8) × σ
  | serializer, [] => ([], serializer)
  | serializer, group :: groups =>
      let (batch, serializer) := options.flush (group.foldl options.put serializer)
      let (batches, serializer) := replay serializer groups
      (batch :: batches, serializer)

end SenderOptions

/-- A sender with a record. -/
abbrev RecordedSender (σ : Type) : Type := PGMSender (Serialising σ) Ledger

namespace RecordedSender

variable {σ : Type} (sender : RecordedSender σ)

/-- The sender without its record. -/
def plain : PGMSender σ Feed := sender.seen Serialising.serializer Ledger.toFeed

/-- A handler is called. -/
def called (event : SenderEvent) (arrivals : List (List PushStep)) : RecordedSender σ :=
  PGMSender.raised
    { sender with
      ioPipe := { sender.ioPipe with toFeed := (sender.plain.called event arrivals).ioPipe } }
    event

/-- After `Plug`, when nothing was pushed yet. -/
def init (serializer : σ) (feed : Feed) : RecordedSender σ :=
  PGMSender.init ⟨serializer, [], []⟩ ⟨feed, [], []⟩

end RecordedSender

/-- A pipe to which nothing was pushed. -/
structure Feed.Unused (feed : Feed) : Prop where
  cacheMsg : feed.pushEnd.cacheMsg = none
  alive : feed.pushEnd.terminated = false
  pending : feed.pending = []
  flushed : feed.flushed = []

/-- The runs of a sender with a record: the batches that were flushed, and the packets that were
sent. -/
inductive Records {σ : Type} (options : FedOptions σ) (serializer : σ) :
    List (List UInt8) → List (List UInt8) → RecordedSender σ → Prop
  | plugged {feed : Feed} : feed.Unused → Records options serializer [] [] (.init serializer feed)
  | pushes {batches sent : List (List UInt8)} {sender : RecordedSender σ} (step : PushStep) :
      Records options serializer batches sent sender →
      Records options serializer batches sent { sender with ioPipe := sender.ioPipe.act step }
  | handles {batches sent : List (List UInt8)} {sender next : RecordedSender σ} {seen : Sent}
      {fuel : Nat} (event : SenderEvent) (arrivals : List (List PushStep)) (status : SendStatus) :
      Records options serializer batches sent sender → sender.plain.Enabled event →
      (sender.called event arrivals).outEvent options.toSenderOptions.recorded fuel status =
        some (seen, next) →
      Records options serializer (batches ++ seen.batches) (sent ++ seen.packet.toList) next

/-! ## Without the record -/

namespace Ledger

variable {ledger : Ledger}

theorem toFeed_foldl_act (steps : List PushStep) (ledger : Ledger) :
    (steps.foldl act ledger).toFeed = steps.foldl Feed.act ledger.toFeed := by
  induction steps generalizing ledger with
  | nil => rfl
  | cons step steps ih => exact ih (ledger.act step)

theorem read_plain : ledger.toFeed.read = (ledger.read.1, ledger.read.2.toFeed) := by
  rw [Feed.read, read, take, toFeed_foldl_act]

end Ledger

section

variable {σ : Type} {options : FedOptions σ} {sender next : RecordedSender σ}

/-- A sender with a record is seen as the sender without it. -/
theorem SenderOptions.recorded_seenAs (options : FedOptions σ) :
    options.toSenderOptions.recorded.SeenAs options.toSenderOptions Serialising.serializer
      Ledger.toFeed where
  outBufferSize := rfl
  offsetMask := by
    rw [SenderOptions.offsetMask, SenderOptions.offsetMask]
    simp [recorded]
  put serialising msg := by
    rw [SenderOptions.put, SenderOptions.put]
    cases increments : options.onIncrement <;> simp [recorded, increments, Serialising.put]
  flush _ := rfl
  read ledger := by
    rw [options.read_eq]
    exact ledger.read_plain

theorem RecordedSender.plain_called (event : SenderEvent) (arrivals : List (List PushStep)) :
    (sender.called event arrivals).plain = sender.plain.called event arrivals := by
  cases event <;> rfl

/-- A call of a handler is the same without the record. -/
theorem RecordedSender.plain_outEvent (fuel : Nat) (status : SendStatus) :
    sender.plain.outEvent options.toSenderOptions fuel status =
      (sender.outEvent options.toSenderOptions.recorded fuel status).map
        fun (seen, next) => (seen, RecordedSender.plain next) :=
  PGMSender.outEvent_seen (SenderOptions.recorded_seenAs options) sender fuel status

variable {serializer : σ} {batches sent : List (List UInt8)}

/-- Without its record, a sender with a record is in a state that a sender can reach. -/
theorem Records.reachable (records : Records options serializer batches sent sender) :
    PGMSender.Reachable options sender.plain := by
  induction records with
  | plugged => exact .plugged ..
  | pushes step _ ih => exact .pushes step ih
  | handles event arrivals status _ enabled done ih =>
      have plain := congrArg (Option.map fun (seen, next) => (seen, RecordedSender.plain next)) done
      rw [← RecordedSender.plain_outEvent, RecordedSender.plain_called] at plain
      exact .handles event arrivals status ih enabled plain

end

/-! ## What was pushed, and what was read -/

namespace Pushing

/-- No content together with a full cache exceeds an `int`. -/
def Moderate (pushing : Pushing) : Prop :=
  ∀ content ∈ pushing.contents, content.bytes.length + pushing.pushEnd.cacheSize < 2147483648

/-- What is cached is no larger than the cache. -/
def CacheFits (pushing : Pushing) : Prop :=
  ∀ cached ∈ pushing.pushEnd.cacheMsg, cached.content.length ≤ pushing.pushEnd.cacheSize

variable {pushing : Pushing}

/-- A content that is cached is smaller than the cache. -/
theorem cached_pushUncached (pushEnd : PushEnd) (empty : pushEnd.cacheMsg = none)
    (content : Content) : ∀ cached ∈ (pushEnd.pushUncached content).pushEnd.cacheMsg,
      cached.content.length ≤ pushEnd.cacheSize := by
  rw [PushEnd.pushUncached]
  split
  · rw [PushEnd.doWriteMessage]
    split <;> simp [empty]
  · rename_i less
    rintro cached ⟨⟩
    exact Nat.le_of_not_ge less

/-- With moderate contents no sum exceeds an `int`, and the cache does not overflow. -/
theorem CacheFits.next (fits : pushing.CacheFits) (collects : pushing.Collects)
    (room : pushing.Fits) {call : PushCall} (moderate : (pushing.next call).Moderate) :
    pushing.SumsToInt call ∧ (pushing.next call).CacheFits := by
  cases call with
  | beginPush timestamp => exact ⟨trivial, fits⟩
  | pushMessage content =>
      have size := (pushing.next_fixed (.pushMessage content)).1
      have small := moderate content (List.mem_append_right _ (List.mem_singleton_self content))
      rw [size] at small
      have sums : pushing.SumsToInt (.pushMessage content) := by
        intro cached member
        have := fits cached member
        omega
      refine ⟨sums, ?_⟩
      rw [CacheFits, size]
      cases cache : pushing.pushEnd.cacheMsg with
      | none =>
          have uncached := cached_pushUncached _ cache content
          rwa [Pushing.next, PushEnd.exec, PushEnd.pushMessage, cache]
      | some cached =>
          have among : cached ∈ pushing.messages := List.mem_append_right _ (by simp [cache])
          have length := collects.size_eq among (room cached among)
          have within := sums cached cache
          have same : toInt32 (content.bytes.length + cached.size) =
              content.bytes.length + cached.content.length := by
            rw [length]
            exact toInt32_of_range (by omega) (by omega)
          have uncached :=
            cached_pushUncached { pushing.pushEnd with cacheMsg := none } rfl content
          simp only [Pushing.next, PushEnd.exec, PushEnd.pushMessage, cache, same]
          split
          · rintro _ ⟨⟩
            simp only [PushedMessage.append, List.length_append]
            omega
          · rw [if_neg (by simp [collects.alive])]
            exact uncached
  | endPush =>
      refine ⟨trivial, ?_⟩
      obtain ⟨-, empty⟩ := pushing.next_endPush collects.alive
      simp [CacheFits, empty]

/-- A run of moderate pushes preserves the byte stream. -/
theorem preserves_of_moderate {steps : List (Pushing × PushCall)}
    (run : Execution Initial (fun _ _ => True) Pushing.next steps pushing)
    (moderate : pushing.Moderate) : pushing.Preserves := by
  have kept : pushing.Collects ∧ pushing.Fits ∧ pushing.CacheFits := by
    induction run with
    | nil initial =>
        refine ⟨initial.collects, ?_, ?_⟩
        · simp [Fits, messages, initial.1, initial.2.2.2.1]
        · simp [CacheFits, initial.1]
    | @step steps before _ call _ ih =>
        have size := (before.next_fixed call).1
        have earlier : before.Moderate := by
          intro content member
          rw [← size]
          refine moderate content ?_
          cases call with
          | pushMessage pushed => exact List.mem_append_left _ member
          | beginPush timestamp => exact member
          | endPush => exact member
        obtain ⟨collects, fits, cache⟩ := ih earlier
        obtain ⟨sums, cache'⟩ := cache.next collects fits moderate
        obtain ⟨collects', fits'⟩ := collects.next call
        exact ⟨collects', fits'.mpr ⟨fits, sums⟩, cache'⟩
  exact kept.1.preserves_iff.mpr kept.2.1

end Pushing

/-- What is pushed in a run are the contents of its calls. -/
theorem Pushing.contents_eq {steps : List (Pushing × PushCall)} {pushing : Pushing}
    (run : Execution Pushing.Initial (fun _ _ => True) Pushing.next steps pushing) :
    pushing.contents = (steps.map Prod.snd).flatMap PushCall.contents := by
  induction run with
  | nil initial => exact initial.2.2.1
  | step _ call _ ih =>
      rw [List.map_append, List.flatMap_append, ← ih]
      cases call <;> simp [Pushing.next, PushCall.contents]

/-- What was read, what is in the pipe and what is still to be written are what the pushing thread
has written in a run that makes the calls. -/
structure Ledger.Balanced (ledger : Ledger) (steps : List (Pushing × PushCall))
    (pushing : Pushing) : Prop where
  run : Execution Pushing.Initial (fun _ _ => True) Pushing.next steps pushing
  pushEnd : pushing.pushEnd = ledger.pushEnd
  calls : steps.map Prod.snd = ledger.calls
  written : pushing.written = ledger.taken ++ ledger.flushed ++ ledger.pending

namespace Ledger

variable {ledger : Ledger}

theorem Balanced.contents {steps : List (Pushing × PushCall)} {pushing : Pushing}
    (balanced : ledger.Balanced steps pushing) : pushing.contents = ledger.contents := by
  rw [Ledger.contents, ← balanced.calls, Pushing.contents_eq balanced.run]

theorem Balanced.act {steps : List (Pushing × PushCall)} {pushing : Pushing}
    (balanced : ledger.Balanced steps pushing) (step : PushStep) :
    ∃ steps pushing, (ledger.act step).Balanced steps pushing := by
  obtain ⟨run, pushEnd, calls, written⟩ := balanced
  cases step with
  | call call =>
      by_cases free : ledger.pending = [] ∧ ledger.obliged = false
      · refine ⟨_, _, run.step call trivial, ?_, ?_, ?_⟩
        · simp [Pushing.next, Ledger.act, Feed.act, free, pushEnd]
        · simp [Ledger.act, calledBy, free, calls]
        · simp [Pushing.next, Ledger.act, Feed.act, free, pushEnd, written]
      · refine ⟨steps, pushing, run, ?_, ?_, ?_⟩
        · simpa [Ledger.act, Feed.act, free] using pushEnd
        · simpa [Ledger.act, calledBy, free] using calls
        · simpa [Ledger.act, Feed.act, free] using written
  | write =>
      refine ⟨steps, pushing, run, ?_, by simpa [Ledger.act, calledBy] using calls, ?_⟩
      · rw [pushEnd, Ledger.act, Feed.act]
        split <;> rfl
      · rw [written, Ledger.act, Feed.act]
        split
        · rename_i pending
          simp [pending]
        · rfl
  | sendCommand =>
      refine ⟨steps, pushing, run, ?_, by simpa [Ledger.act, calledBy] using calls, ?_⟩
      · rw [pushEnd, Ledger.act, Feed.act]
        split <;> rfl
      · rw [written, Ledger.act, Feed.act]
        split <;> rfl

theorem Balanced.foldl_act {steps : List (Pushing × PushCall)} {pushing : Pushing}
    (balanced : ledger.Balanced steps pushing) (more : List PushStep) :
    ∃ steps pushing, (more.foldl Ledger.act ledger).Balanced steps pushing := by
  induction more generalizing ledger steps pushing with
  | nil => exact ⟨steps, pushing, balanced⟩
  | cons step more ih =>
      obtain ⟨steps', pushing', balanced'⟩ := balanced.act step
      exact ih balanced'

/-- A `Read` takes the message in front, if there is one, and records it. -/
theorem Balanced.read {steps : List (Pushing × PushCall)} {pushing : Pushing}
    (balanced : ledger.Balanced steps pushing) :
    (∃ steps pushing, ledger.read.2.Balanced steps pushing) ∧
      ledger.read.2.taken.map PushedMessage.content =
        ledger.taken.map PushedMessage.content ++ ledger.read.1.toList := by
  have taken : ∀ (steps : List PushStep) (ledger : Ledger),
      (steps.foldl Ledger.act ledger).taken = ledger.taken := by
    intro steps
    induction steps with
    | nil => exact fun _ => rfl
    | cons step steps ih => exact fun ledger => ih (ledger.act step)
  have start : ({ ledger with arrivals := ledger.arrivals.tail } : Ledger).Balanced steps pushing :=
    ⟨balanced.run, balanced.pushEnd, balanced.calls, balanced.written⟩
  obtain ⟨steps', pushing', arrived⟩ := start.foldl_act (ledger.arrivals.headD [])
  have same := taken (ledger.arrivals.headD []) { ledger with arrivals := ledger.arrivals.tail }
  rw [Ledger.read]
  generalize List.foldl Ledger.act { ledger with arrivals := ledger.arrivals.tail }
    (ledger.arrivals.headD []) = reached at *
  obtain ⟨run, pushEnd, calls, written⟩ := arrived
  cases flushed : reached.flushed with
  | nil =>
      refine ⟨⟨steps', pushing', run, ?_, ?_, ?_⟩, ?_⟩
      · simpa [take, Feed.take, flushed] using pushEnd
      · exact calls
      · simpa [take, Feed.take, flushed] using written
      · simp [take, Feed.take, flushed, same]
  | cons message left =>
      refine ⟨⟨steps', pushing', run, ?_, ?_, ?_⟩, ?_⟩
      · simpa [take, Feed.take, flushed] using pushEnd
      · exact calls
      · simpa [take, Feed.take, flushed] using written
      · simp [take, Feed.take, flushed, same]

end Ledger

/-! ## What was read, and what was serialised -/

section

variable {σ : Type} {options : FedOptions σ} {start : σ}

/-- The batches are what the groups of messages that were read are serialised to, group by group. -/
structure Serialises (options : FedOptions σ) (start : σ) (batches : List (List UInt8))
    (serialising : Serialising σ) (ledger : Ledger) : Prop where
  read : serialising.groups.flatten ++ serialising.group =
    ledger.taken.map PushedMessage.content
  replayed : ∃ after, options.toSenderOptions.replay start serialising.groups = (batches, after) ∧
    serialising.serializer = serialising.group.foldl options.toSenderOptions.put after
  sizes : ∀ group ∈ serialising.groups, group ≠ [] ∧ group.length ≤ kMaxMessagePerTime
  balanced : ∃ steps pushing, ledger.Balanced steps pushing

theorem replay_append {π : Type} (options : SenderOptions σ π) (serializer : σ)
    (front back : List (List (List UInt8))) :
    options.replay serializer (front ++ back) =
      ((options.replay serializer front).1 ++
          (options.replay (options.replay serializer front).2 back).1,
        (options.replay (options.replay serializer front).2 back).2) := by
  induction front generalizing serializer with
  | nil => rfl
  | cons group front ih => simp only [List.cons_append, SenderOptions.replay, ih]

variable {batches : List (List UInt8)}

theorem Serialises.take {filling : PGMSender.Filling (Serialising σ) Ledger}
    (serialises : Serialises options start batches filling.sender.serializer filling.sender.ioPipe)
    {msg : List UInt8} {ledger : Ledger}
    (read : options.toSenderOptions.recorded.read filling.sender.ioPipe = (some msg, ledger)) :
    Serialises options start batches
        (PGMSender.take options.toSenderOptions.recorded filling msg ledger).sender.serializer
        (PGMSender.take options.toSenderOptions.recorded filling msg ledger).sender.ioPipe ∧
      (PGMSender.take options.toSenderOptions.recorded filling msg ledger).sender.serializer.group =
        filling.sender.serializer.group ++ [msg] := by
  obtain ⟨whole, ⟨after, replayed, serializer⟩, sizes, steps, pushing, balanced⟩ := serialises
  obtain ⟨balanced', taken⟩ := balanced.read
  have same : filling.sender.ioPipe.read = (some msg, ledger) := read
  rw [same] at balanced' taken
  have put : (PGMSender.take options.toSenderOptions.recorded filling msg
      ledger).sender.serializer =
        filling.sender.serializer.put options.toSenderOptions.put msg := by
    rw [PGMSender.take, SenderOptions.put]
    cases increments : options.onIncrement <;> simp [SenderOptions.recorded, increments]
  refine ⟨⟨?_, ⟨after, ?_, ?_⟩, ?_, balanced'⟩, by rw [put]; rfl⟩
  · rw [put, show (PGMSender.take options.toSenderOptions.recorded filling msg
      ledger).sender.ioPipe = ledger from rfl, taken, ← whole]
    simp [Serialising.put]
  · rw [put]
    exact replayed
  · rw [put]
    simp [Serialising.put, serializer]
  · rw [put]
    exact sizes

/-- What is read before a batch is flushed makes up its group. -/
theorem Serialises.gather (count : Nat) {filling : PGMSender.Filling (Serialising σ) Ledger}
    (serialises : Serialises options start batches filling.sender.serializer
      filling.sender.ioPipe) :
    Serialises options start batches
        (PGMSender.gather options.toSenderOptions.recorded count filling).1.sender.serializer
        (PGMSender.gather options.toSenderOptions.recorded count filling).1.sender.ioPipe ∧
      (PGMSender.gather options.toSenderOptions.recorded count
        filling).1.sender.serializer.group.length ≤
          filling.sender.serializer.group.length + count ∧
      (if (PGMSender.gather options.toSenderOptions.recorded count filling).2 then
        (PGMSender.gather options.toSenderOptions.recorded count
          filling).1.sender.serializer.group ≠ []
      else (PGMSender.gather options.toSenderOptions.recorded count
          filling).1.sender.serializer.group = filling.sender.serializer.group) := by
  induction count generalizing filling with
  | zero => exact ⟨serialises, Nat.le_refl _, rfl⟩
  | succ count ih =>
      rw [PGMSender.gather]
      cases read : options.toSenderOptions.recorded.read filling.sender.ioPipe with
      | mk msg ledger =>
          cases msg with
          | none =>
              obtain ⟨whole, replayed, sizes, steps, pushing, balanced⟩ := serialises
              obtain ⟨balanced', taken⟩ := balanced.read
              have same : filling.sender.ioPipe.read = (none, ledger) := read
              rw [same, Option.toList_none, List.append_nil] at taken
              rw [same] at balanced'
              exact ⟨⟨whole.trans taken.symm, replayed, sizes, balanced'⟩, by dsimp only; omega,
                rfl⟩
          | some msg =>
              obtain ⟨taken, group⟩ := serialises.take read
              obtain ⟨kept, few, last⟩ := ih taken
              rw [group, List.length_append, List.length_singleton] at few
              refine ⟨kept, by dsimp only; omega, ?_⟩
              dsimp only
              rw [if_pos rfl]
              split at last
              · exact last
              · rw [last, group]
                simp

/-- Each pass of the loop that fills a packet keeps the record, and leaves no message out of a
batch. -/
theorem Serialises.pass {filling : PGMSender.Filling (Serialising σ) Ledger}
    (serialises : Serialises options start (batches ++ filling.batches) filling.sender.serializer
      filling.sender.ioPipe)
    (flushed : filling.sender.serializer.group = []) :
    (PGMSender.pass options.toSenderOptions.recorded filling).Keeps
      (fun filling => Serialises options start (batches ++ filling.batches)
        filling.sender.serializer filling.sender.ioPipe ∧ filling.sender.serializer.group = [])
      (fun filling => Serialises options start (batches ++ filling.batches)
        filling.sender.serializer filling.sender.ioPipe ∧
          filling.sender.serializer.group = []) := by
  have copied : ∀ (filling : PGMSender.Filling (Serialising σ) Ledger) (batch : List UInt8),
      (PGMSender.copy options.toSenderOptions.recorded filling batch).sender.serializer =
          filling.sender.serializer ∧
        (PGMSender.copy options.toSenderOptions.recorded filling batch).sender.ioPipe =
          filling.sender.ioPipe ∧
        (PGMSender.copy options.toSenderOptions.recorded filling batch).batches =
          filling.batches := by
    intro filling batch
    rw [PGMSender.copy]
    dsimp only
    split <;> exact ⟨rfl, rfl, rfl⟩
  rw [PGMSender.pass]
  split
  · rename_i inside
    split
    · rename_i batch _
      obtain ⟨serializer, ioPipe, same⟩ := copied filling batch
      simp only [Pass.Keeps, serializer, ioPipe, same]
      exact ⟨serialises, flushed⟩
    · obtain ⟨kept, few, last⟩ := serialises.gather kMaxMessagePerTime
      obtain ⟨_, _, _, gathered⟩ := PGMSender.gather_spec kMaxMessagePerTime inside
      have batches_eq : (PGMSender.gather options.toSenderOptions.recorded kMaxMessagePerTime
          filling).1.batches = filling.batches := by rw [gathered]
      rw [flushed, List.length_nil, Nat.zero_add] at few
      generalize PGMSender.gather options.toSenderOptions.recorded kMaxMessagePerTime filling =
        result at *
      obtain ⟨filling', available⟩ := result
      dsimp only at batches_eq kept few
      cases available with
      | false =>
          rw [if_neg (by simp)] at last
          refine ⟨?_, last.trans flushed⟩
          rw [← batches_eq] at kept
          exact kept
      | true =>
          rw [if_pos rfl] at last
          obtain ⟨whole, ⟨after, replayed, serializer⟩, sizes, balanced⟩ := kept
          simp only [if_true, Pass.Keeps]
          obtain ⟨serializer', ioPipe', same⟩ := copied
            { filling' with
              sender := { filling'.sender with
                serializer :=
                  (options.toSenderOptions.recorded.flush filling'.sender.serializer).2
                current := some
                  (options.toSenderOptions.recorded.flush filling'.sender.serializer).1 }
              batches := filling'.batches ++
                [(options.toSenderOptions.recorded.flush filling'.sender.serializer).1] }
            (options.toSenderOptions.recorded.flush filling'.sender.serializer).1
          rw [serializer', ioPipe', same]
          refine ⟨⟨?_, ⟨_, ?_, rfl⟩, ?_, balanced⟩, rfl⟩
          · rw [← whole]
            simp [SenderOptions.recorded]
          · rw [batches_eq, ← List.append_assoc]
            have again := replay_append options.toSenderOptions start
              filling'.sender.serializer.groups [filling'.sender.serializer.group]
            rw [replayed] at again
            simp only [SenderOptions.replay, ← serializer] at again
            exact again
          · intro group member
            rcases List.mem_append.mp member with earlier | here
            · exact sizes group earlier
            · obtain rfl := List.mem_singleton.mp here
              exact ⟨last, few⟩
  · exact ⟨serialises, flushed⟩

theorem Serialises.outEvent {sender next : RecordedSender σ} {fuel : Nat} {status : SendStatus}
    {seen : Sent}
    (serialises : Serialises options start batches sender.serializer sender.ioPipe)
    (flushed : sender.serializer.group = [])
    (done : sender.outEvent options.toSenderOptions.recorded fuel status = some (seen, next)) :
    Serialises options start (batches ++ seen.batches) next.serializer next.ioPipe ∧
      next.serializer.group = [] := by
  have sent : ∀ (sender after : RecordedSender σ) (packet : Option (List UInt8)),
      PGMSender.send sender status = (packet, after) →
        after.serializer = sender.serializer ∧ after.ioPipe = sender.ioPipe := by
    intro sender after packet same
    obtain rfl := (congrArg Prod.snd same).symm
    cases timer : sender.hasTxTimer <;> cases status <;> simp [PGMSender.send, timer]
  rw [PGMSender.outEvent] at done
  split at done
  · obtain ⟨filling, ran, ended⟩ := Option.bind_eq_some_iff.mp done
    have begun : Serialises options start
        (batches ++ (PGMSender.start options.toSenderOptions.recorded sender).batches)
        sender.serializer sender.ioPipe := by
      rw [PGMSender.start, List.append_nil]
      exact serialises
    have left : Leaves (PGMSender.pass options.toSenderOptions.recorded)
        (PGMSender.start options.toSenderOptions.recorded sender) filling := ⟨fuel, ran⟩
    obtain ⟨kept, empty⟩ := Leaves.keeps (fun _ here => Serialises.pass here.1 here.2)
      ⟨begun, flushed⟩ left
    split at ended
    · obtain ⟨rfl, rfl⟩ := Prod.mk.inj (Option.some_inj.mp ended)
      exact ⟨kept, empty⟩
    · cases tried : PGMSender.send (PGMSender.packed filling) status with
      | mk packet after =>
          rw [tried] at ended
          obtain ⟨rfl, rfl⟩ := Prod.mk.inj (Option.some_inj.mp ended)
          obtain ⟨serializer, ioPipe⟩ := sent _ _ _ tried
          rw [serializer, ioPipe]
          exact ⟨kept, empty⟩
  · cases tried : PGMSender.send sender status with
    | mk packet after =>
        rw [tried] at done
        obtain ⟨rfl, rfl⟩ := Prod.mk.inj (Option.some_inj.mp done)
        obtain ⟨serializer, ioPipe⟩ := sent _ _ _ tried
        rw [serializer, ioPipe, List.append_nil]
        exact ⟨serialises, flushed⟩

end

theorem small_twoBytes : ([1, 2] : List UInt8).length < 2147483648 := by decide

/-- The calls that push two bytes. -/
def pushTwoBytes : List PushCall := [.beginPush 0, .pushMessage ⟨[1, 2], small_twoBytes⟩, .endPush]

/-- Two bytes were pushed. -/
def twoBytes : RecordedSender (List UInt8) :=
  let feed := { PGMSender.quietFeed with flushed := [⟨[1, 2], 2, 1024, 0⟩] }
  PGMSender.init ⟨[], [], []⟩ ⟨feed, pushTwoBytes, []⟩

theorem contents_twoBytes {ledger : Ledger} (calls : ledger.calls = pushTwoBytes) :
    ledger.contents = [⟨[1, 2], small_twoBytes⟩] := by
  rw [Ledger.contents, calls]
  rfl

/-- The sender sends them, and finds nothing more. -/
theorem records_twoBytes : ∃ batches sent sender,
    Records PGMSender.plainOptions [] batches sent sender ∧
      sent = [[0, 0, 0, 0, 0, 0, 1, 2, 0]] ∧
      sender.ioPipe.calls = pushTwoBytes ∧ sender.ioPipe.pushEnd.cacheSize = 900 ∧
      ¬sender.plain.Awake ∧ sender.ioPipe.pending = [] ∧
      sender.ioPipe.pushEnd.cacheMsg = none := by
  have start : Records PGMSender.plainOptions [] [] [] (.init [] PGMSender.quietFeed) :=
    .plugged ⟨rfl, rfl, rfl, rfl⟩
  have pushed : Records PGMSender.plainOptions [] [] [] twoBytes :=
    (((start.pushes (.call (.beginPush 0))).pushes
      (.call (.pushMessage ⟨[1, 2], small_twoBytes⟩))).pushes (.call .endPush)).pushes .write
  have ran : ∃ first sender second last,
      (twoBytes.called .outEvent []).outEvent
          PGMSender.plainOptions.toSenderOptions.recorded 3 .normal = some (first, sender) ∧
        (RecordedSender.called sender .outEvent []).outEvent
          PGMSender.plainOptions.toSenderOptions.recorded 3 .normal = some (second, last) ∧
        sender.pollout = true ∧
        first.packet.toList ++ second.packet.toList = [[0, 0, 0, 0, 0, 0, 1, 2, 0]] ∧
        last.ioPipe.calls = pushTwoBytes ∧ last.ioPipe.pushEnd.cacheSize = 900 ∧
        (last.pollout = false ∧ last.hasTxTimer = false ∧ last.ioPipe.obliged = false ∧
          last.ioPipe.restarts = 0) ∧
        last.ioPipe.pending = [] ∧ last.ioPipe.pushEnd.cacheMsg = none := by
    refine ⟨_, _, _, _, rfl, rfl, ?_⟩
    exact ⟨rfl, rfl, rfl, rfl, ⟨rfl, rfl, rfl, rfl⟩, rfl, rfl⟩
  obtain ⟨first, sender, second, last, sends, finds, polls, packets, calls, size,
    ⟨pollout, timer, obliged, restarts⟩, pending, cached⟩ := ran
  have sent := pushed.handles .outEvent [] .normal rfl sends
  have found := sent.handles .outEvent [] .normal polls finds
  refine ⟨_, _, last, found, ?_, calls, size, ?_, pending, cached⟩
  · simpa using packets
  · rintro (here | here | here | here)
    · exact absurd (pollout.symm.trans here) nofun
    · exact absurd (timer.symm.trans here) nofun
    · exact absurd (obliged.symm.trans here) nofun
    · exact absurd restarts (Nat.ne_of_gt here)

/-! ## Results -/

section

variable {σ : Type} {options : FedOptions σ} {serializer : σ} {batches sent : List (List UInt8)}
  {sender : RecordedSender σ}

/-- What every run keeps: the record is true, and the packets carry the batches. -/
theorem Records.kept (records : Records options serializer batches sent sender) :
    (Serialises options serializer batches sender.serializer sender.ioPipe ∧
        sender.serializer.group = []) ∧
      ∃ packets, PGMSender.Packetised 0 batches sent packets sender := by
  induction records with
  | @plugged feed unused =>
      refine ⟨⟨⟨rfl, ⟨serializer, rfl, rfl⟩, by simp [RecordedSender.init, PGMSender.init], [],
        ⟨feed.pushEnd, [], [], false⟩,
        .nil ⟨unused.cacheMsg, unused.alive, rfl, rfl, rfl⟩, rfl, rfl, ?_⟩, rfl⟩, [], rfl, rfl, ?_,
        rfl, fun _ => rfl⟩
      · simp [RecordedSender.init, PGMSender.init, unused.flushed, unused.pending]
      · intro front packet back split
        simp at split
  | pushes step _ ih =>
      obtain ⟨⟨⟨read, replayed, sizes, steps, pushing, balanced⟩, flushed⟩, packets,
        packetised⟩ := ih
      exact ⟨⟨⟨read, replayed, sizes, balanced.act step⟩, flushed⟩, packets,
        { packetised with }⟩
  | @handles batches' sent' sender' next seen fuel event arrivals status _ _ done ih =>
      obtain ⟨⟨⟨read, replayed, sizes, steps, pushing, balanced⟩, flushed⟩,
        packets, packetised⟩ := ih
      have called : Serialises options serializer batches'
          (sender'.called event arrivals).serializer (sender'.called event arrivals).ioPipe := by
        cases event <;>
          exact ⟨read, replayed, sizes, steps, pushing, balanced.run, balanced.pushEnd,
            balanced.calls, balanced.written⟩
      have flushed' : (sender'.called event arrivals).serializer.group = [] := by
        cases event <;> exact flushed
      have raised : PGMSender.Packetised 0 batches' sent' packets
          (sender'.called event arrivals) := by
        cases event <;> exact { packetised with }
      obtain ⟨packets', -, packetised'⟩ := raised.outEvent done
      exact ⟨called.outEvent flushed' done, packets', packetised'⟩

/-- The contents pushed make up the messages, whole contents each, with room for them. -/
theorem Records.messages (records : Records options serializer batches sent sender)
    (moderate : ∀ content ∈ sender.ioPipe.contents,
      content.bytes.length + sender.ioPipe.pushEnd.cacheSize < 2147483648) :
    (∃ parts : List (List Content), parts.flatten = sender.ioPipe.contents ∧
        sender.serializer.groups.flatten ++ sender.ioPipe.unread.map PushedMessage.content =
          parts.map fun part => part.flatMap Content.bytes) ∧
      ∀ message ∈ sender.ioPipe.taken ++ sender.ioPipe.unread,
        message.size = message.content.length ∧ message.size ≤ message.capacity := by
  obtain ⟨⟨⟨read, -, -, steps, pushing, balanced⟩, flushed⟩, -⟩ := records.kept
  rw [flushed, List.append_nil] at read
  have messages : pushing.messages = sender.ioPipe.taken ++ sender.ioPipe.unread := by
    rw [Pushing.messages, balanced.written, balanced.pushEnd, Ledger.unread]
    simp only [List.append_assoc]
  have preserves := Pushing.preserves_of_moderate balanced.run (by
    rw [Pushing.Moderate, balanced.contents, balanced.pushEnd]
    exact moderate)
  refine ⟨?_, messages ▸ preserves.sizes⟩
  obtain ⟨parts, same, made⟩ := preserves.whole
  refine ⟨parts, same.trans balanced.contents, ?_⟩
  rw [read, ← List.map_append, ← messages, made]

theorem Records.ended (records : Records options serializer batches sent sender)
    (moderate : ∀ content ∈ sender.ioPipe.contents,
      content.bytes.length + sender.ioPipe.pushEnd.cacheSize < 2147483648)
    (last : ∀ call ∈ sender.ioPipe.calls.getLast?, call = .endPush) :
    sender.ioPipe.pushEnd.cacheMsg = none := by
  obtain ⟨⟨⟨-, -, -, steps, pushing, balanced⟩, -⟩, -⟩ := records.kept
  have preserves := Pushing.preserves_of_moderate balanced.run (by
    rw [Pushing.Moderate, balanced.contents, balanced.pushEnd]
    exact moderate)
  rw [← balanced.pushEnd]
  rw [← balanced.calls] at last
  have run := balanced.run
  cases run with
  | nil initial => exact initial.1
  | step before call _ =>
      obtain rfl : call = .endPush := last call (by simp)
      exact preserves.ended rfl

/-- What was serialised and what was not read are the bytes pushed. -/
theorem Records.bytes_eq (records : Records options serializer batches sent sender)
    (moderate : ∀ content ∈ sender.ioPipe.contents,
      content.bytes.length + sender.ioPipe.pushEnd.cacheSize < 2147483648) :
    sender.serializer.groups.flatten.flatten ++
        sender.ioPipe.unread.flatMap PushedMessage.content =
      sender.ioPipe.contents.flatMap Content.bytes := by
  obtain ⟨⟨parts, whole, made⟩, -⟩ := records.messages moderate
  have bytes := congrArg List.flatten made
  rw [List.flatten_append, ← List.flatMap_def, ← List.flatMap_def] at bytes
  rw [bytes, ← whole]
  simp [List.flatMap_def, List.map_flatten, List.flatten_flatten, Function.comp_def]

/-- The messages that were read went into the batches group by group, and the batches into the
packets. -/
theorem Records.packets (records : Records options serializer batches sent sender) :
    (∀ group ∈ sender.serializer.groups, group ≠ [] ∧ group.length ≤ kMaxMessagePerTime) ∧
      (options.toSenderOptions.replay serializer sender.serializer.groups).1 = batches ∧
      ∃ packets, sent ++ sender.pending = datagrams 0 packets ∧
        payloads packets ++ sender.rest = batches.flatten := by
  obtain ⟨⟨⟨-, ⟨after, replayed, -⟩, sizes, -⟩, -⟩, packets, packetised⟩ := records.kept
  exact ⟨sizes, by rw [replayed], packets, packetised.encoded, packetised.stream⟩

/-- A sender that nothing will call has nothing left of what was written to the pipe. -/
theorem Records.drained (records : Records options serializer batches sent sender)
    (rest : ¬sender.plain.Awake) :
    sender.pending = [] ∧ sender.rest = [] ∧ sender.ioPipe.flushed = [] := by
  obtain ⟨nothing, -⟩ := records.reachable.wakeful.resolve_left rest
  obtain ⟨size, left⟩ := not_or.mp nothing
  obtain ⟨current, flushed⟩ := not_or.mp left
  have ready : sender.writeSize = 0 := not_not.mp size
  have done : sender.current = none := not_not.mp current
  exact ⟨by rw [PGMSender.pending, if_pos ready], by rw [PGMSender.rest, done],
    not_not.mp flushed⟩

/-- Between the pushing thread and the wire nothing is lost, doubled or put out of order.  The
contents pushed make up messages, whole contents each, with room for them; the messages that were
read are serialised once each and in order, in groups of at most `kMaxMessagePerTime` that are not
empty; and the batches of the groups, one after the other, are the payloads of the packets. -/
theorem wire_carries_pushed (records : Records options serializer batches sent sender)
    (moderate : ∀ content ∈ sender.ioPipe.contents,
      content.bytes.length + sender.ioPipe.pushEnd.cacheSize < 2147483648) :
    (∃ parts : List (List Content), parts.flatten = sender.ioPipe.contents ∧
        sender.serializer.groups.flatten ++ sender.ioPipe.unread.map PushedMessage.content =
          parts.map fun part => part.flatMap Content.bytes) ∧
      (∀ message ∈ sender.ioPipe.taken ++ sender.ioPipe.unread,
        message.size = message.content.length ∧ message.size ≤ message.capacity) ∧
      (∀ group ∈ sender.serializer.groups, group ≠ [] ∧ group.length ≤ kMaxMessagePerTime) ∧
      (options.toSenderOptions.replay serializer sender.serializer.groups).1 = batches ∧
      ∃ packets, sent ++ sender.pending = datagrams 0 packets ∧
        payloads packets ++ sender.rest = batches.flatten := by
  obtain ⟨parts, sizes⟩ := records.messages moderate
  exact ⟨parts, sizes, records.packets⟩

theorem wire_carries_pushed_twoBytes : ∃ sender : RecordedSender (List UInt8),
    sender.ioPipe.contents = [⟨[1, 2], small_twoBytes⟩] ∧
      ∃ parts : List (List Content), parts.flatten = sender.ioPipe.contents ∧
        sender.serializer.groups.flatten ++ sender.ioPipe.unread.map PushedMessage.content =
          parts.map fun part => part.flatMap Content.bytes := by
  obtain ⟨batches, sent, sender, records, -, calls, size, -⟩ := records_twoBytes
  have contents := contents_twoBytes calls
  obtain ⟨whole, -⟩ := wire_carries_pushed records (by simp [contents, size])
  exact ⟨sender, contents, whole⟩

/-- A sender that nothing will call has sent all that was pushed, once the pushing thread has ended
its push and returned. -/
theorem at_rest_all_sent (records : Records options serializer batches sent sender)
    (moderate : ∀ content ∈ sender.ioPipe.contents,
      content.bytes.length + sender.ioPipe.pushEnd.cacheSize < 2147483648)
    (rest : ¬sender.plain.Awake) (returned : sender.ioPipe.pending = [])
    (ended : sender.ioPipe.pushEnd.cacheMsg = none) :
    ∃ packets groups, sent = datagrams 0 packets ∧
      payloads packets = (options.toSenderOptions.replay serializer groups).1.flatten ∧
      groups.flatten.flatten = sender.ioPipe.contents.flatMap Content.bytes := by
  obtain ⟨-, replayed, packets, encoded, stream⟩ := records.packets
  obtain ⟨nothing, done, read⟩ := records.drained rest
  have bytes := records.bytes_eq moderate
  rw [nothing, List.append_nil] at encoded
  rw [done, List.append_nil] at stream
  refine ⟨packets, sender.serializer.groups, encoded, by rw [stream, replayed], ?_⟩
  rw [← bytes, Ledger.unread, read, returned, ended]
  simp

theorem at_rest_all_sent_twoBytes : ∃ packets groups,
    [[0, 0, 0, 0, 0, 0, 1, 2, 0]] = datagrams 0 packets ∧ payloads packets =
      (PGMSender.plainOptions.toSenderOptions.replay [] groups).1.flatten ∧
      groups.flatten.flatten = [1, 2] := by
  obtain ⟨batches, sent, sender, records, same, calls, size, rest, returned, ended⟩ :=
    records_twoBytes
  have contents := contents_twoBytes calls
  obtain ⟨packets, groups, packed, carried, pushed⟩ :=
    at_rest_all_sent records (by simp [contents, size]) rest returned ended
  exact ⟨packets, groups, same ▸ packed, carried, by simpa [contents] using pushed⟩

end

end FlashForwarder
