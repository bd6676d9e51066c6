import FlashForwarder.Allocator.Capacities

/-!
# Who has a message

If users give back and change only what they hold, every message of the lists is in one place at any
time, and `Allocate` never hands out a message that is held.  It hands out a message that looks like
a new one if every message that was recycled did.
-/

namespace FlashForwarder

open LinkedList Transition

namespace MessageAllocator

open Pool

/-- The history of a trace. -/
def history (trace : List Label) : History := trace.foldl History.next {}

variable {allocator : MessageAllocator} {queued : SpscQueue.History Addr} {past : History}
  {lists : Nat → List Addr}

/-! ## One place for each message -/

/-- The allocator is a pool in which every message is in one place. -/
def FollowsApart (allocator : MessageAllocator) (past : History) : Prop :=
  ∃ queued lists, allocator.Follows queued ∧ (allocator.pool queued).Sized ∧
    (allocator.pool queued).Apart past lists

theorem Pool.apart_empty :
    (⟨fun _ => none, fun _ => none, [], none⟩ : Pool).Apart {} fun _ => [] := by
  have none_listed : (List.range slots).flatMap (fun _ => ([] : List Addr)) = [] :=
    List.flatMap_eq_nil_iff.mpr fun _ _ => rfl
  refine ⟨rfl, rfl, fun index small => rfl, ?_, ?_⟩ <;> simp [places, none_listed]

theorem Initial.followsApart (initial : Initial allocator) : FollowsApart allocator {} := by
  obtain ⟨follows, empty⟩ := initial.follows
  exact ⟨{}, _, follows, empty ▸ Pool.sized_empty, empty ▸ Pool.apart_empty⟩

theorem apart_simulation :
    Simulation Step History.Owns History.Allows History.next FollowsApart where
  silent := by
    rintro allocator next past ⟨queued, lists, follows, sized, apart⟩ stepped
    obtain ⟨queued', follows', moves⟩ := follows.step stepped
    exact ⟨queued', lists, follows', moves ▸ sized, moves ▸ apart⟩
  visible := by
    rintro allocator next past label ⟨queued, lists, follows, sized, apart⟩ stepped owns
    obtain ⟨queued', follows', moves⟩ := follows.step stepped
    obtain ⟨allowed, lists', apart'⟩ := apart.step sized moves owns
    exact ⟨allowed, queued', lists', follows', sized.step moves, apart'⟩

/-- A message that was handed out with an index is never deleted. -/
theorem hasIndex_of_allocated {start : MessageAllocator} {trace : List Label}
    (initial : Initial start) (run : Run Step start trace allocator) {capacity : Int} {msg : Addr}
    {message : Message} (member : .allocated capacity msg message ∈ trace)
    (nonneg : 0 ≤ message.index) : HasIndex allocator.messages msg message.index := by
  induction run with
  | nil => exact absurd member (by simp)
  | @silent trace state next earlier stepped ih =>
      obtain ⟨⟨queued, follows, -⟩, -⟩ := initial.followsSized.run earlier
      obtain ⟨queued', -, moves⟩ := follows.step stepped
      have same : next.messages = state.messages := congrArg Pool.messages moves
      rw [same]
      exact ih member
  | visible earlier stepped ih =>
      obtain ⟨⟨queued, follows, -⟩, -⟩ := initial.followsSized.run earlier
      obtain ⟨queued', -, moves⟩ := follows.step stepped
      rcases List.mem_append.mp member with before | last
      · exact moves.keeps nonneg (ih before)
      · rw [← List.mem_singleton.mp last] at moves
        exact ⟨message, moves.of_allocated, rfl⟩

theorem Follows.exists_recyclerStep (follows : allocator.Follows queued)
    (busy : allocator.recycler ≠ .idle) {fresh : Addr}
    (unallocated : allocator.idleQueue.queue.heap fresh = none) :
    (allocator.recyclerStep fresh).isSome := by
  have within := follows.recycler
  cases recycler : allocator.recycler with
  | idle => exact absurd recycler busy
  | writing msg =>
      rw [RecyclerWithin, recycler] at within
      have enabled : allocator.idleQueue.Enabled
          (allocator.idleQueue.orWriter (.write msg false) fresh) :=
        SpscQueue.enabled_orWriter id unallocated
      obtain ⟨written, queue, result, -⟩ := follows.queue_continues enabled
      rw [recyclerStep, recycler]
      dsimp only
      rw [result]
      cases written <;> rfl
  | flushing msg =>
      rw [RecyclerWithin, recycler] at within
      have enabled : allocator.idleQueue.Enabled (allocator.idleQueue.orWriter .flush fresh) :=
        SpscQueue.enabled_orWriter id unallocated
      obtain ⟨flush, queue, result, -⟩ := follows.queue_continues enabled
      rw [recyclerStep, recycler]
      dsimp only
      rw [result]
      obtain ⟨-, ⟨rfl, -⟩ | ⟨⟨returned, rfl⟩, -⟩⟩ := SpscQueue.flush_cases within result <;> rfl

/-- What users may do: ask for a capacity that is not negative, and give back and change what they
hold. -/
def Permits (past : History) : Action → Prop
  | .allocate capacity _ => 0 ≤ capacity
  | .release msg | .recycle msg | .set msg _ => msg ∈ past.held
  | .owner _ | .recycler _ => True

theorem Follows.defined (follows : allocator.Follows queued)
    (sized : (allocator.pool queued).Sized) (apart : (allocator.pool queued).Apart past lists)
    {action : Action} (enabled : allocator.Enabled action) (permitted : Permits past action) :
    (allocator.exec action).isSome := by
  have held : ∀ {msg : Addr}, msg ∈ past.held →
      ∃ message, allocator.messages msg = some message ∧ Fits message := by
    intro msg member
    obtain ⟨message, found⟩ := (apart.all msg).mp (List.mem_append_left _ member)
    exact ⟨message, found, sized.fits msg message found⟩
  cases action with
  | allocate capacity fresh =>
      obtain ⟨label, next, done, -⟩ := follows.allocate_returns sized permitted enabled
      rw [done]
      rfl
  | release msg =>
      obtain ⟨message, found, fits⟩ := held permitted
      rw [exec, MessageAllocator.release, found]
      by_cases index : message.index < 0
      · simp [index]
      · have cleared : Fits message.clear := fits
        obtain ⟨after, put⟩ := exists_putBack cleared (Int.not_lt.mp index) allocator msg
        simp [index, put]
  | recycle msg =>
      obtain ⟨message, found, fits⟩ := held permitted
      rw [exec, MessageAllocator.recycle, found]
      by_cases index : message.index < 0 <;> simp [index]
  | set msg setting =>
      obtain ⟨message, found, fits⟩ := held permitted
      rw [exec, MessageAllocator.set, found]
      rfl
  | owner fresh =>
      obtain ⟨label, next, done⟩ := follows.exists_ownerStep sized enabled.1 fresh
      rw [exec, done]
      rfl
  | recycler fresh => exact follows.exists_recyclerStep enabled.1 enabled.2

/-- The free lists are linked without a cycle, their messages have their index, and every message
that was handed out with an index is in one place, once. -/
structure Tracked (allocator : MessageAllocator) (trace : List Label)
    (lists : Nat → List Addr) : Prop where
  linked : ∀ index < slots,
    Linked Message.next allocator.messages (allocator.freeLists index) (lists index)
  acyclic : ∀ index < slots, (lists index).Nodup
  own : ∀ index < slots, ∀ msg ∈ lists index, HasIndex allocator.messages msg index
  once : ∀ (capacity : Int) (msg : Addr) (message : Message),
    .allocated capacity msg message ∈ trace → 0 ≤ message.index →
      (places (history trace) lists).count msg = 1

/-- In every run in which the users give back and change only what they hold, each message of the
lists is in one place at any time: held, in its free list, or on its way there; `Allocate` does not
hand out what is held, and `ConsumeIdleQueue` moves the idle messages in their order until there is
none but that of a `Recycle` that has not returned.  What is permitted is defined. -/
theorem never_handed_out_twice {start : MessageAllocator} {trace : List Label}
    (initial : Initial start) (run : Run Step start trace allocator)
    (owned : Throughout History.Owns History.next {} trace) :
    (∃ lists, Tracked allocator trace lists) ∧
    (∀ (before after : List Label) (capacity : Int) (msg : Addr) (message : Message),
      trace = before ++ .allocated capacity msg message :: after → msg ∉ (history before).held) ∧
    (∀ (before after : List Label) (msg : Addr), trace = before ++ .moved msg :: after →
      (history before).idle.head? = some msg) ∧
    (∀ before after : List Label, trace = before ++ .consumed :: after →
      ∀ msg ∈ (history before).idle, (history before).recycling = some msg) ∧
    ∀ action, allocator.Enabled action → Permits (history trace) action →
      (allocator.exec action).isSome := by
  obtain ⟨⟨queued, lists, follows, sized, apart⟩, allowed⟩ :=
    apart_simulation.follows initial.followsApart run owned
  refine ⟨⟨lists, apart.linked, ?_, ?_, ?_⟩, ?_, ?_, ?_, ?_⟩
  · exact fun index small => (apart.linked index small).nodup
  · intro index small msg member
    obtain ⟨message, found, here, -⟩ :=
      sized.of_met small ((apart.linked index small).mem_iff.mp member)
    exact ⟨message, found, here⟩
  · intro capacity msg message member nonneg
    obtain ⟨stored, found, -⟩ := hasIndex_of_allocated initial run member nonneg
    exact List.count_eq_one_of_mem apart.once ((apart.all msg).mpr ⟨stored, found⟩)
  · exact fun before after capacity msg message split => allowed before _ after split
  · exact fun before after msg split => allowed before _ after split
  · exact fun before after split => allowed before _ after split
  · exact fun action enabled permitted => follows.defined sized apart enabled permitted

/-- The other thread is given nothing but what it holds. -/
theorem owns_handedOutAgain (size : Int32) :
    Throughout History.Owns History.next {} (handedOutAgain size) := by
  have held : Throughout History.Owns History.next {} ([] ++ [Label.consumed] ++
      [Label.allocated 100 7 ⟨1, 128, 0, 0, 0, none⟩] ++ [Label.set 7 (.size size)] ++
      [Label.recycling 7 ⟨1, 128, size, 0, 0, none⟩]) :=
    throughout_concat.mpr ⟨throughout_concat.mpr
      ⟨.concat (.concat .nil fun _ => trivial) fun _ => trivial, List.mem_cons_self ..⟩,
        List.mem_cons_self ..⟩
  have owned : Throughout History.Owns History.next {} ([] ++ [Label.consumed] ++
      [Label.allocated 100 7 ⟨1, 128, 0, 0, 0, none⟩] ++ [Label.set 7 (.size size)] ++
      [Label.recycling 7 ⟨1, 128, size, 0, 0, none⟩] ++ [Label.recycled] ++ [Label.moved 7] ++
      [Label.consumed] ++ [Label.allocated 100 7 ⟨1, 128, size, 0, 0, none⟩]) :=
    .concat (.concat (.concat (.concat held fun _ => trivial) fun _ => trivial) fun _ => trivial)
      fun _ => trivial
  exact owned

theorem never_handed_out_twice_once :
    ∃ start allocator, Initial start ∧ Run Step start (handedOutAgain 0) allocator ∧
      (∃ lists, Tracked allocator (handedOutAgain 0) lists) ∧
        7 ∉ (history ((handedOutAgain 0).take 7)).held := by
  obtain ⟨start, allocator, initial, run⟩ := run_handedOutAgain 0
  obtain ⟨tracked, unheld, -⟩ := never_handed_out_twice initial run (owns_handedOutAgain 0)
  exact ⟨start, allocator, initial, run, tracked, unheld _ [] 100 7 ⟨1, 128, 0, 0, 0, none⟩ rfl⟩

/-! ## How a message looks -/

/-- A message looks like a new one. -/
def Message.Blank (message : Message) : Prop :=
  message.size = 0 ∧ message.id = 0 ∧ message.timestamp = 0

/-- What is recycled, and is not too big for the lists, looks like a new message. -/
def RecyclesBlank : Label → Prop
  | .recycling _ message => 0 ≤ message.index → message.Blank
  | .allocated _ _ _ | .released _ | .recycled | .moved _ | .consumed | .set _ _ => True

/-- What `Allocate` returns looks like a new message. -/
def AllocatesBlank : Label → Prop
  | .allocated _ _ message => message.Blank
  | .released _ | .recycling _ _ | .recycled | .moved _ | .consumed | .set _ _ => True

/-- Every message that is not held looks like a new one. -/
def UnheldBlank (pool : Pool) (past : History) : Prop :=
  ∀ msg message, pool.messages msg = some message → msg ∉ past.held → message.Blank

theorem UnheldBlank.update {pool after : Pool} {past later : History} {msg : Addr}
    {stored : Option Message} (blank : UnheldBlank pool past)
    (messages : after.messages = Function.update pool.messages msg stored)
    (held : ∀ other, other ≠ msg → other ∉ later.held → other ∉ past.held)
    (here : ∀ message, stored = some message → msg ∉ later.held → message.Blank) :
    UnheldBlank after later := by
  intro other message found unheld
  rw [messages, Function.update_apply] at found
  split at found
  · rename_i same
    subst same
    exact here message found unheld
  · rename_i different
    exact blank other message found (held other different unheld)

/-- A step hands out what looks like a new message, if what it recycles does. -/
theorem UnheldBlank.step {pool after : Pool} {label : Label} (blank : UnheldBlank pool past)
    (stepped : pool.Step label after) (allowed : past.Allows label) (owns : past.Owns label)
    (clean : RecyclesBlank label) :
    AllocatesBlank label ∧ UnheldBlank after (past.next label) := by
  have handed : ∀ {msg other : Addr}, other ∉ msg :: past.held → other ∉ past.held :=
    fun unheld held => unheld (List.mem_cons_of_mem _ held)
  have given : ∀ {msg other : Addr}, other ≠ msg → other ∉ past.held.erase msg →
      other ∉ past.held :=
    fun different unheld held => unheld ((List.mem_erase_of_ne different).mpr held)
  cases stepped with
  | oversized big unused =>
      exact ⟨⟨rfl, rfl, rfl⟩, blank.update rfl (fun _ _ => handed)
        fun message here unheld => absurd (List.mem_cons_self ..) unheld⟩
  | made small listed empty unused made =>
      rw [made]
      exact ⟨⟨rfl, rfl, rfl⟩, blank.update rfl (fun _ _ => handed)
        fun message here unheld => absurd (List.mem_cons_self ..) unheld⟩
  | reused small listed first found =>
      have old := blank _ _ found allowed
      exact ⟨old, blank.update rfl (fun _ _ => handed)
        fun message here unheld => absurd (List.mem_cons_self ..) unheld⟩
  | deleted found negative =>
      exact ⟨trivial, blank.update rfl (fun _ => given) fun _ impossible _ =>
        absurd impossible (by simp)⟩
  | released found nonneg small =>
      refine ⟨trivial, blank.update rfl (fun _ => given) fun message here _ => ?_⟩
      obtain rfl := Option.some_inj.mp here
      exact ⟨rfl, rfl, rfl⟩
  | dropped found negative =>
      refine ⟨trivial, ?_⟩
      rw [History.next, if_pos negative]
      exact blank.update rfl (fun _ => given) fun _ impossible _ => absurd impossible (by simp)
  | @recycling msg message found nonneg =>
      refine ⟨trivial, fun other stored here unheld => ?_⟩
      rw [History.next, if_neg (Int.not_lt.mpr nonneg)] at unheld
      by_cases same : other = msg
      · subst same
        obtain rfl := Option.some_inj.mp (Eq.trans (Eq.symm found) here)
        exact clean nonneg
      · exact blank other stored here (given same unheld)
  | recycled => exact ⟨trivial, blank⟩
  | moved first found nonneg small =>
      refine ⟨trivial, blank.update rfl (fun _ _ => id) fun message here unheld => ?_⟩
      obtain rfl := Option.some_inj.mp here
      have old := blank _ _ found unheld
      exact old
  | consumed all => exact ⟨trivial, blank⟩
  | set found =>
      exact ⟨trivial, blank.update rfl (fun _ _ => id) fun _ _ unheld => absurd owns unheld⟩

theorem blank_simulation : Simulation Step
    (fun past label => History.Owns past label ∧ RecyclesBlank label)
    (fun _ label => AllocatesBlank label) History.next
    (fun allocator past => ∃ queued lists, (allocator.Follows queued ∧
      (allocator.pool queued).Sized ∧ (allocator.pool queued).Apart past lists) ∧
        UnheldBlank (allocator.pool queued) past) where
  silent := by
    rintro allocator next past ⟨queued, lists, ⟨follows, sized, apart⟩, blank⟩ stepped
    obtain ⟨queued', follows', moves⟩ := follows.step stepped
    exact ⟨queued', lists, ⟨follows', moves ▸ sized, moves ▸ apart⟩, moves ▸ blank⟩
  visible := by
    rintro allocator next past label ⟨queued, lists, ⟨follows, sized, apart⟩, blank⟩ stepped
      ⟨owns, clean⟩
    obtain ⟨queued', follows', moves⟩ := follows.step stepped
    obtain ⟨allowed, lists', apart'⟩ := apart.step sized moves owns
    obtain ⟨looks, blank'⟩ := blank.step moves allowed owns clean
    exact ⟨looks, queued', lists', ⟨follows', sized.step moves, apart'⟩, blank'⟩

/-- In every run in which every message that is recycled, and not too big for the lists, looks like
a new one at that time, so does every message that `Allocate` returns. -/
theorem allocated_blank {start : MessageAllocator} {trace : List Label}
    (initial : Initial start) (run : Run Step start trace allocator)
    (owned : Throughout History.Owns History.next {} trace)
    (clean : ∀ (msg : Addr) (message : Message), .recycling msg message ∈ trace →
      0 ≤ message.index → message.Blank) :
    ∀ (capacity : Int) (msg : Addr) (message : Message),
      .allocated capacity msg message ∈ trace → message.Blank := by
  obtain ⟨follows, empty⟩ := initial.follows
  have begins : UnheldBlank (start.pool {}) {} := by
    intro msg message found _
    rw [empty] at found
    exact absurd found (by simp)
  have assumed : Throughout (fun past label => History.Owns past label ∧ RecyclesBlank label)
      History.next {} trace := by
    intro before label after split
    refine ⟨owned before label after split, ?_⟩
    cases label with
    | recycling msg message => exact clean msg message (by simp [split])
    | allocated capacity msg message => trivial
    | released msg => trivial
    | recycled => trivial
    | moved msg => trivial
    | consumed => trivial
    | set msg setting => trivial
  intro capacity msg message member
  obtain ⟨before, after, split⟩ := List.append_of_mem member
  have related := And.intro follows
    (And.intro (empty ▸ Pool.sized_empty : (start.pool {}).Sized)
      (empty ▸ Pool.apart_empty : (start.pool {}).Apart {} fun _ => []))
  exact (blank_simulation.follows ⟨{}, _, related, begins⟩ run assumed).2 before _ after split

theorem allocated_blank_once :
    ∃ start allocator, Initial start ∧ Run Step start (handedOutAgain 0) allocator ∧
      ∀ (msg : Addr) (message : Message),
        .allocated 100 msg message ∈ (handedOutAgain 0).drop 6 → message.Blank := by
  obtain ⟨start, allocator, initial, run⟩ := run_handedOutAgain 0
  have clean : ∀ (msg : Addr) (message : Message),
      .recycling msg message ∈ handedOutAgain 0 → 0 ≤ message.index → message.Blank := by
    intro msg message member _
    simp only [handedOutAgain, List.mem_cons, reduceCtorEq, false_or, or_false, List.not_mem_nil,
      Label.recycling.injEq] at member
    rw [member.2]
    exact ⟨rfl, rfl, rfl⟩
  exact ⟨start, allocator, initial, run, fun msg message member =>
    allocated_blank initial run (owns_handedOutAgain 0) clean 100 msg message
      (List.mem_of_mem_drop member)⟩

/-- A message that was given a size and then recycled still has it when it is handed out again. -/
theorem recycled_size_comes_back :
    ¬∀ (start allocator : MessageAllocator) (trace : List Label), Initial start →
      Run Step start trace allocator → Throughout History.Owns History.next {} trace →
      ∀ (capacity : Int) (msg : Addr) (message : Message),
        .allocated capacity msg message ∈ trace → message.Blank := by
  intro always
  obtain ⟨start, allocator, initial, run⟩ := run_handedOutAgain 5
  have blank := always start allocator _ initial run (owns_handedOutAgain 5) 100 7
    ⟨1, 128, 5, 0, 0, none⟩ (by simp [handedOutAgain])
  exact absurd blank.1 (by decide)

end MessageAllocator

end FlashForwarder
