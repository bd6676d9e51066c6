import FlashForwarder.Allocator.Capacities
import FlashForwarder.Library.ByteMemory

/-!
# The pushing end

`PGMSender` collects what is pushed in a message of the size of a packet, and writes the message to
its pipe when the next content does not fit or the push ends.  A content as large as a packet is
written as a message of its own.
-/

namespace FlashForwarder

open MessageAllocator Transition

/-- What is pushed at once; its size is an `int`. -/
structure Content where
  /-- `content` -/
  bytes : List UInt8
  /-- `size` -/
  small : bytes.length < 2147483648

/-- A message of the pipe. -/
structure PushedMessage where
  /-- The bytes that were copied into `buffer_`, one after the other. -/
  content : List UInt8
  /-- `size_` -/
  size : Int
  /-- `capacity_` -/
  capacity : Int
  /-- `timestamp_` -/
  timestamp : Int64

/-- The members of `PGMSender` that the pushing thread uses. -/
structure PushEnd where
  /-- `cache_size_`, an `int` -/
  cacheSize : Nat
  /-- It is one. -/
  small : cacheSize < 2147483648
  /-- `cache_msg_` -/
  cacheMsg : Option PushedMessage
  /-- `timestamp_` -/
  timestamp : Int64
  /-- `terminated_` of `ui_pipe_` -/
  terminated : Bool

/-- What a call does. -/
structure Pushed where
  /-- What is returned. -/
  ret : Int
  /-- The messages written to the pipe. -/
  written : List PushedMessage
  /-- The members. -/
  pushEnd : PushEnd

/-- A call of the pushing thread. -/
inductive PushCall where
  | beginPush (timestamp : Int64)
  | pushMessage (content : Content)
  | endPush

/-- A content is copied behind what a message holds. -/
def PushedMessage.append (message : PushedMessage) (content : Content) : PushedMessage :=
  { message with
    content := message.content ++ content.bytes
    size := toInt32 (message.size + content.bytes.length) }

namespace PushEnd

variable (pushEnd : PushEnd)

/-- A message that holds one content. -/
def messageOf (capacity : Int) (content : Content) : PushedMessage :=
  ⟨content.bytes, content.bytes.length, capacityFor capacity, pushEnd.timestamp⟩

/-- `BeginPush` -/
def beginPush (timestamp : Int64) : Pushed := ⟨0, [], { pushEnd with timestamp := timestamp }⟩

/-- `DoWriteMessage` -/
def doWriteMessage (content : Content) : Pushed :=
  if pushEnd.terminated then ⟨-1, [], pushEnd⟩
  else ⟨0, [pushEnd.messageOf content.bytes.length content], pushEnd⟩

/-- `PushMessage` from where nothing is cached. -/
def pushUncached (content : Content) : Pushed :=
  if content.bytes.length ≥ pushEnd.cacheSize then pushEnd.doWriteMessage content
  else ⟨0, [], { pushEnd with cacheMsg := some (pushEnd.messageOf pushEnd.cacheSize content) }⟩

/-- `PushMessage` -/
def pushMessage (content : Content) : Pushed :=
  match pushEnd.cacheMsg with
  | none => pushEnd.pushUncached content
  | some cached =>
      if toInt32 (content.bytes.length + cached.size) ≤ pushEnd.cacheSize then
        ⟨0, [], { pushEnd with cacheMsg := some (cached.append content) }⟩
      else if pushEnd.terminated then
        ⟨-1, [], { pushEnd with cacheMsg := none }⟩
      else
        let pushed := { pushEnd with cacheMsg := none }.pushUncached content
        { pushed with written := cached :: pushed.written }

/-- `EndPush` -/
def endPush : Pushed :=
  match pushEnd.cacheMsg with
  | none => ⟨0, [], pushEnd⟩
  | some cached =>
      if pushEnd.terminated then ⟨-1, [], { pushEnd with cacheMsg := none }⟩
      else ⟨0, [cached], { pushEnd with cacheMsg := none }⟩

/-- What a call does. -/
def exec : PushCall → Pushed
  | .beginPush timestamp => pushEnd.beginPush timestamp
  | .pushMessage content => pushEnd.pushMessage content
  | .endPush => pushEnd.endPush

end PushEnd

/-! ## Runs -/

/-- The pushing end, with what has been pushed and written so far. -/
structure Pushing where
  /-- The members. -/
  pushEnd : PushEnd
  /-- What was pushed. -/
  contents : List Content
  /-- What was written. -/
  written : List PushedMessage
  /-- The last call was `EndPush`. -/
  ended : Bool

namespace Pushing

/-- A sender after `Init`, whose pipe is not terminated. -/
def Initial (pushing : Pushing) : Prop :=
  pushing.pushEnd.cacheMsg = none ∧ pushing.pushEnd.terminated = false ∧ pushing.contents = [] ∧
    pushing.written = [] ∧ pushing.ended = false

variable (pushing : Pushing)

/-- The messages written, and the cached one. -/
def messages : List PushedMessage := pushing.written ++ pushing.pushEnd.cacheMsg.toList

/-- A call is made. -/
def next (call : PushCall) : Pushing :=
  let pushed := pushing.pushEnd.exec call
  { pushEnd := pushed.pushEnd
    contents := match call with
      | .pushMessage content => pushing.contents ++ [content]
      | .beginPush _ | .endPush => pushing.contents
    written := pushing.written ++ pushed.written
    ended := match call with
      | .endPush => true
      | .beginPush _ | .pushMessage _ => false }

/-- Push batching preserves the byte stream: whole contents, one after the other, make up the
messages, which have room for them; after `EndPush` nothing is cached. -/
structure Preserves : Prop where
  stream : pushing.messages.flatMap PushedMessage.content =
    pushing.contents.flatMap Content.bytes
  whole : ∃ groups : List (List Content), groups.flatten = pushing.contents ∧
    pushing.messages.map PushedMessage.content = groups.map fun group => group.flatMap Content.bytes
  sizes : ∀ message ∈ pushing.messages, message.size = message.content.length ∧
    message.size ≤ message.capacity
  ended : pushing.ended = true → pushing.pushEnd.cacheMsg = none

/-- A call does not push a content whose size and that of what is cached exceed an `int`. -/
def SumsToInt : PushCall → Prop
  | .pushMessage content => ∀ cached ∈ pushing.pushEnd.cacheMsg,
      content.bytes.length + cached.content.length < 2147483648
  | .beginPush _ | .endPush => True

/-! ## What a call does to the messages -/

/-- The cached message grows by a content. -/
structure Appends (content : Content) (after : Pushing) : Prop where
  cached : ∃ cached, pushing.pushEnd.cacheMsg = some cached ∧
    toInt32 (content.bytes.length + cached.size) ≤ pushing.pushEnd.cacheSize ∧
    after.pushEnd.cacheMsg = some (cached.append content)
  written : after.written = pushing.written

/-- A content makes a new message, which comes after the others and has room for it. -/
structure Begins (content : Content) (after : Pushing) : Prop where
  beyond : ∀ cached ∈ pushing.pushEnd.cacheMsg,
    pushing.pushEnd.cacheSize < toInt32 (content.bytes.length + cached.size)
  messages : ∃ capacity : Nat, content.bytes.length ≤ capacity ∧ capacity < 2147483648 ∧
    after.messages = pushing.messages ++ [pushing.pushEnd.messageOf capacity content]
  cached : ∀ cached ∈ after.pushEnd.cacheMsg,
    cached.capacity = capacityFor pushing.pushEnd.cacheSize

theorem pushUncached_spec (pushEnd : PushEnd) (alive : pushEnd.terminated = false)
    (empty : pushEnd.cacheMsg = none) (content : Content) :
    ∃ capacity : Nat, content.bytes.length ≤ capacity ∧ capacity < 2147483648 ∧
      (pushEnd.pushUncached content).written ++
        (pushEnd.pushUncached content).pushEnd.cacheMsg.toList =
          [pushEnd.messageOf capacity content] ∧
      ∀ cached ∈ (pushEnd.pushUncached content).pushEnd.cacheMsg,
        cached.capacity = capacityFor pushEnd.cacheSize := by
  rw [PushEnd.pushUncached]
  split
  · refine ⟨content.bytes.length, Nat.le_refl _, content.small, ?_, ?_⟩
    · simp [PushEnd.doWriteMessage, alive, empty]
    · simp [PushEnd.doWriteMessage, alive, empty]
  · rename_i less
    refine ⟨pushEnd.cacheSize, by omega, pushEnd.small, by simp, ?_⟩
    rintro cached ⟨⟩
    rfl

/-- A content is appended to the cached message, or makes a new one. -/
theorem next_pushMessage (alive : pushing.pushEnd.terminated = false) (content : Content) :
    pushing.Appends content (pushing.next (.pushMessage content)) ∨
      pushing.Begins content (pushing.next (.pushMessage content)) := by
  cases cache : pushing.pushEnd.cacheMsg with
  | none =>
      obtain ⟨capacity, room, small, messages, cached⟩ :=
        pushUncached_spec pushing.pushEnd alive cache content
      refine Or.inr ⟨by simp [cache], ⟨capacity, room, small, ?_⟩, ?_⟩
      · simpa [Pushing.messages, next, PushEnd.exec, PushEnd.pushMessage, cache] using messages
      · simpa [next, PushEnd.exec, PushEnd.pushMessage, cache] using cached
  | some cached =>
      by_cases fits : toInt32 (content.bytes.length + cached.size) ≤ pushing.pushEnd.cacheSize
      · refine Or.inl ⟨⟨cached, cache, fits, ?_⟩, ?_⟩ <;>
          simp [next, PushEnd.exec, PushEnd.pushMessage, cache, fits]
      · obtain ⟨capacity, room, small, messages, cached'⟩ :=
          pushUncached_spec { pushing.pushEnd with cacheMsg := none } alive rfl content
        refine Or.inr ⟨?_, ⟨capacity, room, small, ?_⟩, ?_⟩
        · simpa [cache] using fits
        · simpa [Pushing.messages, next, PushEnd.exec, PushEnd.pushMessage, PushEnd.messageOf,
            cache, fits, alive] using messages
        · simpa [next, PushEnd.exec, PushEnd.pushMessage, cache, fits, alive] using cached'

theorem next_endPush (alive : pushing.pushEnd.terminated = false) :
    (pushing.next .endPush).messages = pushing.messages ∧
      (pushing.next .endPush).pushEnd.cacheMsg = none := by
  cases cache : pushing.pushEnd.cacheMsg <;>
    simp [Pushing.messages, next, PushEnd.exec, PushEnd.endPush, cache, alive]

/-- No call changes the size of the cache or terminates the pipe. -/
theorem next_fixed (call : PushCall) :
    (pushing.next call).pushEnd.cacheSize = pushing.pushEnd.cacheSize ∧
      (pushing.next call).pushEnd.terminated = pushing.pushEnd.terminated := by
  cases call with
  | beginPush timestamp => exact ⟨rfl, rfl⟩
  | pushMessage content =>
      simp only [next, PushEnd.exec, PushEnd.pushMessage, PushEnd.pushUncached,
        PushEnd.doWriteMessage]
      repeat' split
      all_goals exact ⟨rfl, rfl⟩
  | endPush =>
      simp only [next, PushEnd.exec, PushEnd.endPush]
      repeat' split
      all_goals exact ⟨rfl, rfl⟩

/-! ## What holds in every run -/

/-- What holds even if sums overflow. -/
structure Collects : Prop where
  alive : pushing.pushEnd.terminated = false
  whole : ∃ groups : List (List Content), groups.flatten = pushing.contents ∧
    pushing.messages.map PushedMessage.content = groups.map fun group => group.flatMap Content.bytes
  sizes : ∀ message ∈ pushing.messages, message.size = toInt32 message.content.length
  narrow : ∀ message ∈ pushing.messages, message.capacity < 2147483648
  cached : ∀ cached ∈ pushing.pushEnd.cacheMsg,
    cached.capacity = capacityFor pushing.pushEnd.cacheSize
  ended : pushing.ended = true → pushing.pushEnd.cacheMsg = none

/-- Every message has room for what it holds. -/
def Fits : Prop :=
  ∀ message ∈ pushing.messages, (message.content.length : Int) ≤ message.capacity

variable {pushing}

theorem Collects.size_eq (collects : pushing.Collects) {message : PushedMessage}
    (member : message ∈ pushing.messages)
    (fits : (message.content.length : Int) ≤ message.capacity) :
    message.size = message.content.length := by
  have narrow := collects.narrow message member
  rw [collects.sizes message member, toInt32_natCast (by omega)]

theorem Collects.preserves_iff (collects : pushing.Collects) :
    pushing.Preserves ↔ pushing.Fits := by
  constructor
  · rintro preserves message member
    obtain ⟨size, room⟩ := preserves.sizes message member
    rwa [size] at room
  · intro fits
    obtain ⟨groups, contents, messages⟩ := collects.whole
    refine ⟨?_, ⟨groups, contents, messages⟩, fun message member => ?_, collects.ended⟩
    · rw [List.flatMap_def, messages, ← contents, List.flatMap_def, List.map_flatten,
        List.flatten_flatten, List.map_map]
      simp [Function.comp_def, List.flatMap_def]
    · have room := fits message member
      have size := collects.size_eq member room
      exact ⟨size, size ▸ room⟩

theorem Initial.collects (initial : pushing.Initial) : pushing.Collects := by
  obtain ⟨empty, alive, contents, written, ended⟩ := initial
  have none : pushing.messages = [] := by simp [Pushing.messages, empty, written]
  refine ⟨alive, ⟨[], by simp [contents], by simp [none]⟩, by simp [none], by simp [none],
    by simp [empty], by simp [ended]⟩

section

variable {after : Pushing} {content : Content}

theorem Appends.messages_eq (appends : pushing.Appends content after) :
    ∃ cached, pushing.pushEnd.cacheMsg = some cached ∧
      pushing.messages = pushing.written ++ [cached] ∧
      after.messages = pushing.written ++ [cached.append content] := by
  obtain ⟨⟨cached, cache, -, cache'⟩, written⟩ := appends
  exact ⟨cached, cache, by simp [Pushing.messages, cache],
    by simp [Pushing.messages, cache', written]⟩

theorem Collects.appends (collects : pushing.Collects) (appends : pushing.Appends content after)
    (contents : after.contents = pushing.contents ++ [content])
    (fixed : after.pushEnd.cacheSize = pushing.pushEnd.cacheSize ∧
      after.pushEnd.terminated = pushing.pushEnd.terminated)
    (open_ : after.ended = false) : after.Collects := by
  obtain ⟨cached, cache, messages, messages'⟩ := appends.messages_eq
  obtain ⟨⟨cached₁, cache₁, -, cache'⟩, -⟩ := appends
  obtain rfl := Option.some_inj.mp (cache.symm.trans cache₁)
  obtain ⟨alive, whole, sizes, narrow, capacity, ended⟩ := collects
  rw [messages] at whole sizes narrow
  have last : cached ∈ pushing.written ++ [cached] := by simp
  refine ⟨fixed.2.trans alive, ?_, ?_, ?_, ?_, by simp [open_]⟩
  · obtain ⟨groups, flat, same⟩ := whole
    rw [List.map_append] at same
    obtain ⟨front, back, rfl, front_eq, back_eq⟩ := List.map_eq_append_iff.mp same.symm
    obtain ⟨group, rfl, group_eq⟩ := List.map_eq_singleton_iff.mp back_eq
    refine ⟨front ++ [group ++ [content]], ?_, ?_⟩
    · rw [contents, ← flat]
      simp
    · rw [messages', List.map_append, ← front_eq]
      simp [PushedMessage.append, group_eq]
  · rw [messages', List.forall_mem_append]
    refine ⟨fun message member => sizes message (List.mem_append_left _ member), ?_⟩
    intro message member
    obtain rfl := List.mem_singleton.mp member
    have size := sizes cached last
    simp only [PushedMessage.append, List.length_append, size, toInt32]
    exact Int.bmod_add_bmod
  · rw [messages', List.forall_mem_append]
    refine ⟨fun message member => narrow message (List.mem_append_left _ member), ?_⟩
    intro message member
    obtain rfl := List.mem_singleton.mp member
    exact narrow cached last
  · rw [cache']
    rintro _ ⟨⟩
    rw [fixed.1]
    exact capacity cached cache

theorem Collects.begins (collects : pushing.Collects) (begins : pushing.Begins content after)
    (contents : after.contents = pushing.contents ++ [content])
    (fixed : after.pushEnd.cacheSize = pushing.pushEnd.cacheSize ∧
      after.pushEnd.terminated = pushing.pushEnd.terminated)
    (open_ : after.ended = false) : after.Collects := by
  obtain ⟨-, ⟨room, -, small, messages⟩, capacity'⟩ := begins
  obtain ⟨alive, ⟨groups, flat, same⟩, sizes, narrow, capacity, ended⟩ := collects
  refine ⟨fixed.2.trans alive, ⟨groups ++ [[content]], ?_, ?_⟩, ?_, ?_, ?_, by simp [open_]⟩
  · rw [contents, ← flat]
    simp
  · rw [messages, List.map_append, same]
    simp [PushEnd.messageOf]
  · rw [messages, List.forall_mem_append]
    refine ⟨sizes, fun message member => ?_⟩
    obtain rfl := List.mem_singleton.mp member
    exact (toInt32_natCast content.small).symm
  · rw [messages, List.forall_mem_append]
    refine ⟨narrow, fun message member => ?_⟩
    obtain rfl := List.mem_singleton.mp member
    exact capacityFor_lt (by omega) (by omega)
  · rw [fixed.1]
    exact capacity'

/-- The sum that decides is that of the sizes, as an `int`. -/
theorem Collects.fits_appends (collects : pushing.Collects)
    (appends : pushing.Appends content after) :
    after.Fits ↔ pushing.Fits ∧ pushing.SumsToInt (.pushMessage content) := by
  obtain ⟨cached, cache, messages, messages'⟩ := appends.messages_eq
  obtain ⟨⟨cached₁, cache₁, decided, -⟩, -⟩ := appends
  obtain rfl := Option.some_inj.mp (cache.symm.trans cache₁)
  have last : cached ∈ pushing.messages := by simp [messages]
  have narrow := collects.narrow cached last
  have capacity := collects.cached cached cache
  have room := le_capacityFor (Int.natCast_nonneg pushing.pushEnd.cacheSize)
  have sum : pushing.SumsToInt (.pushMessage content) ↔
      content.bytes.length + cached.content.length < 2147483648 := by
    simp [SumsToInt, cache]
  have grown : (cached.append content).content.length =
      cached.content.length + content.bytes.length := List.length_append
  have held : (cached.append content).capacity = cached.capacity := rfl
  rw [sum, Fits, Fits, messages, messages', List.forall_mem_append, List.forall_mem_append,
    List.forall_mem_singleton, List.forall_mem_singleton, grown, held]
  constructor
  · rintro ⟨before, here⟩
    exact ⟨⟨before, by omega⟩, by omega⟩
  · rintro ⟨⟨before, here⟩, small⟩
    have size := collects.size_eq last here
    rw [size, toInt32_of_range (by omega) (by omega)] at decided
    exact ⟨before, by omega⟩

theorem Collects.fits_begins (collects : pushing.Collects)
    (begins : pushing.Begins content after) :
    after.Fits ↔ pushing.Fits ∧ pushing.SumsToInt (.pushMessage content) := by
  obtain ⟨beyond, ⟨capacity, room, small, messages⟩, -⟩ := begins
  have holds : (content.bytes.length : Int) ≤ capacityFor capacity :=
    (Int.ofNat_le.mpr room).trans (le_capacityFor (Int.natCast_nonneg capacity))
  have fits : after.Fits ↔ pushing.Fits := by
    rw [Fits, messages, List.forall_mem_append, List.forall_mem_singleton]
    exact and_iff_left holds
  rw [fits]
  refine (and_iff_left_of_imp fun before cached member => ?_).symm
  have last : cached ∈ pushing.messages :=
    List.mem_append_right _ (Option.mem_toList.mpr member)
  have size := collects.size_eq last (before cached last)
  have above := beyond cached member
  have narrow := collects.narrow cached last
  have within := before cached last
  have small' := content.small
  -- A sum from 2 ^ 31 on would be negative as an `int`, and appended.
  by_contra large
  have wrapped : toInt32 (content.bytes.length + cached.size) < 0 := by
    rw [size, toInt32, Int.bmod_def]
    split <;> omega
  omega

end

/-- Each call keeps what holds anyway, and keeps the room just if its sum is an `int`. -/
theorem Collects.next (collects : pushing.Collects) (call : PushCall) :
    (pushing.next call).Collects ∧
      ((pushing.next call).Fits ↔ pushing.Fits ∧ pushing.SumsToInt call) := by
  cases call with
  | beginPush timestamp =>
      obtain ⟨alive, whole, sizes, narrow, cached, ended⟩ := collects
      exact ⟨⟨alive, by simpa [Pushing.next, PushEnd.exec, PushEnd.beginPush, messages] using whole,
        by simpa [Pushing.next, PushEnd.exec, PushEnd.beginPush, messages] using sizes,
        by simpa [Pushing.next, PushEnd.exec, PushEnd.beginPush, messages] using narrow, cached,
        nofun⟩, by simp [Fits, Pushing.next, PushEnd.exec, PushEnd.beginPush, messages, SumsToInt]⟩
  | pushMessage content =>
      have fixed := pushing.next_fixed (.pushMessage content)
      rcases pushing.next_pushMessage collects.alive content with appends | begins
      · exact ⟨collects.appends appends rfl fixed rfl, collects.fits_appends appends⟩
      · exact ⟨collects.begins begins rfl fixed rfl, collects.fits_begins begins⟩
  | endPush =>
      obtain ⟨messages, empty⟩ := pushing.next_endPush collects.alive
      have fixed := pushing.next_fixed .endPush
      obtain ⟨alive, whole, sizes, narrow, cached, ended⟩ := collects
      refine ⟨⟨fixed.2.trans alive, messages ▸ whole, messages ▸ sizes, messages ▸ narrow,
        by simp [empty], fun _ => empty⟩, ?_⟩
      simp [Fits, messages, SumsToInt]

/-- A run of calls preserves the byte stream just if no sum of sizes exceeds an `int`. -/
theorem preserves_iff_sums {steps : List (Pushing × PushCall)} {pushing : Pushing}
    (run : Execution Initial (fun _ _ => True) Pushing.next steps pushing) :
    pushing.Preserves ↔ ∀ step ∈ steps, step.1.SumsToInt step.2 := by
  refine run.exactly Collects Preserves SumsToInt ?_ ?_
  · intro start initial
    refine ⟨initial.collects, initial.collects.preserves_iff.mpr ?_⟩
    simp [Fits, messages, initial.1, initial.2.2.2.1]
  · intro before call collects _
    obtain ⟨collects', fits⟩ := collects.next call
    exact ⟨collects', by rw [collects'.preserves_iff, collects.preserves_iff, fits]⟩

/-- A sender of packets of 1000 bytes, as initialised. -/
def initialised : Pushing := ⟨⟨1000, by decide, none, 0, false⟩, [], [], false⟩

/-- Two contents that are written together. -/
theorem preserves_iff_sums_two :
    ((((initialised.next (.pushMessage ⟨[1, 2], by decide⟩)).next
        (.pushMessage ⟨[3], by decide⟩)).next .endPush).Preserves ↔
      ∀ step ∈ ([] ++ [(initialised, .pushMessage ⟨[1, 2], by decide⟩)] ++
        [(initialised.next (.pushMessage ⟨[1, 2], by decide⟩), .pushMessage ⟨[3], by decide⟩)] ++
        [((initialised.next (.pushMessage ⟨[1, 2], by decide⟩)).next
          (.pushMessage ⟨[3], by decide⟩), .endPush)]), step.1.SumsToInt step.2) :=
  preserves_iff_sums (.step (.step (.step (.nil ⟨rfl, rfl, rfl, rfl, rfl⟩) _ trivial) _ trivial) _
    trivial)

/-- A content of the greatest size, pushed after one byte, is appended to it. -/
theorem greatest_content_not_preserved :
    ¬∀ (steps : List (Pushing × PushCall)) (pushing : Pushing),
      Execution Initial (fun _ _ => True) Pushing.next steps pushing → pushing.Preserves := by
  intro claimed
  have initial : initialised.Initial := ⟨rfl, rfl, rfl, rfl, rfl⟩
  have small : (List.replicate 2147483647 (0 : UInt8)).length < 2147483648 := by
    rw [List.length_replicate]
    decide
  have first := initial.collects.next (.pushMessage ⟨[0], by decide⟩)
  have second := first.1.next (.pushMessage ⟨List.replicate 2147483647 0, small⟩)
  have start : Execution Initial (fun _ _ => True) Pushing.next [] initialised := .nil initial
  have one := start.step (.pushMessage ⟨[0], by decide⟩) trivial
  have two := one.step (.pushMessage ⟨List.replicate 2147483647 0, small⟩) trivial
  have sums := (second.2.mp (second.1.preserves_iff.mp (claimed _ _ two))).2 _ rfl
  rw [List.length_replicate] at sums
  exact absurd sums (by decide)

end Pushing

end FlashForwarder
