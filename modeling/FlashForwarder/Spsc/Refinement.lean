import FlashForwarder.Spsc.History
import FlashForwarder.Spsc.Layout

/-!
# The queue in memory follows its history

The four pointers are kept at the places of what was completed, flushed and returned.  Each step of
either thread keeps them there, whatever the other one is doing, and shows only labels that the
history allows.
-/

namespace FlashForwarder

open Transition

variable {α : Type}

/-- What a `Write` that has not returned has stored. -/
def Writer.pending : Writer α → List α
  | .pushing value _ => [value]
  | .idle | .flushing | .storing => []

@[simp] theorem Writer.pending_pushing (value : α) (incomplete : Bool) :
    (Writer.pushing value incomplete).pending = [value] := rfl

@[simp] theorem Writer.pending_idle : (Writer.idle : Writer α).pending = [] := rfl

@[simp] theorem Writer.pending_flushing : (Writer.flushing : Writer α).pending = [] := rfl

@[simp] theorem Writer.pending_storing : (Writer.storing : Writer α).pending = [] := rfl

/-- The chunk that a `Read` that has not returned has emptied. -/
def Reader.emptied : Reader → Option Addr
  | .recycling emptied => some emptied
  | .idle | .checking _ | .taking => none

@[simp] theorem Reader.emptied_recycling (emptied : Addr) :
    (Reader.recycling emptied).emptied = some emptied := rfl

@[simp] theorem Reader.emptied_idle : Reader.idle.emptied = none := rfl

@[simp] theorem Reader.emptied_checking (reading : Bool) :
    (Reader.checking reading).emptied = none := rfl

@[simp] theorem Reader.emptied_taking : Reader.taking.emptied = none := rfl

namespace SpscQueue

/-- The members of a queue agree with its history. -/
structure Agrees (N : Nat) (state : SpscQueue α) (history : History α) (addr : Nat → Addr)
    (last : Nat) : Prop where
  orderly : history.Orderly
  layout : Layout N state.queue addr history.returned.length last
    (history.written ++ state.writer.pending) state.reader.emptied
  full : state.queue.endPos = N ↔ state.writer.pending ≠ []
  fItem : state.fItem = some (place N addr history.completed)
  wItem : state.writer ≠ .storing → state.wItem = some (place N addr history.flushed)
  contention : state.contention =
    if history.asleep then none else some (place N addr history.flushed)
  rItem : ∀ item, state.rItem = some item → ∃ i, item = place N addr i ∧
    history.returned.length ≤ i ∧ i ≤ history.flushed ∧
      (state.reader = .taking → history.returned.length < i)
  taking : state.reader = .taking → history.returned.length < history.flushed
  flushing : state.writer = .flushing ∨ state.writer = .storing →
    history.flushed ≠ history.completed
  storing : state.writer = .storing → history.asleep = true

/-- The members of a queue agree with its history, wherever its chunks are. -/
def Refines (N : Nat) (state : SpscQueue α) (history : History α) : Prop :=
  ∃ addr last, state.Agrees N history addr last

/-- A step is defined, and what it shows is allowed. -/
def Continues (N : Nat) (history : History α) (result : Option (Option (Label α) × SpscQueue α)) :
    Prop :=
  ∃ label state, result = some (label, state) ∧
    match label with
    | none => state.Refines N history
    | some label => history.Allows label ∧ state.Refines N (history.next label)

namespace Agrees

variable {N : Nat} {state : SpscQueue α} {history : History α} {addr : Nat → Addr} {last : Nat}
  {value : α} {incomplete : Bool}

theorem room (agrees : state.Agrees N history addr last) (nothing : state.writer.pending = []) :
    state.queue.endPos < N := by
  have := agrees.layout.endPos_le
  have notFull : state.queue.endPos ≠ N := fun full => agrees.full.mp full nothing
  omega

/-- No value is in the middle of being written between two calls. -/
theorem layout_idle (agrees : state.Agrees N history addr last)
    (nothing : state.writer.pending = []) :
    Layout N state.queue addr history.returned.length last history.written
      state.reader.emptied := by
  have layout := agrees.layout
  rwa [nothing, List.append_nil] at layout

section

variable (positive : 0 < N)

include positive

/-- Two places in use are the same only when their numbers are. -/
theorem place_inj (agrees : state.Agrees N history addr last) {i j : Nat}
    (i_above : history.returned.length ≤ i) (i_below : i ≤ history.written.length)
    (j_above : history.returned.length ≤ j) (j_below : j ≤ history.written.length) :
    place N addr i = place N addr j ↔ i = j := by
  have length : history.written.length ≤ (history.written ++ state.writer.pending).length := by
    simp
  exact agrees.layout.place_inj positive i_above (by omega) j_above (by omega)

end

/-- The end of `Write`, when the item behind the new one has its place. -/
theorem written (agrees : state.Agrees N history addr last) {queue : BatchQueue α}
    {addr' : Nat → Addr} {last' : Nat}
    (layout : Layout N queue addr' history.returned.length last' (history.written ++ [value])
      state.reader.emptied) (room : queue.endPos < N)
    (same : ∀ i, i ≤ history.written.length → place N addr' i = place N addr i)
    (calm : state.writer ≠ .storing) :
    (state.written queue incomplete).Agrees N (history.next (.write value incomplete)) addr'
      last' := by
  obtain ⟨_, returned_le, flushed_le, completed_le, _⟩ := agrees.orderly
  refine
    { orderly := agrees.orderly.next trivial
      layout := ?_
      full := ?_
      fItem := ?_
      wItem := fun _ => ?_
      contention := ?_
      rItem := ?_
      taking := agrees.taking
      flushing := nofun
      storing := nofun }
  · simpa [SpscQueue.written, History.next] using layout
  · have : queue.endPos ≠ N := Nat.ne_of_lt room
    simpa [SpscQueue.written] using this
  · cases incomplete with
    | true => simp [SpscQueue.written, History.next, agrees.fItem, same _ completed_le]
    | false => simp [SpscQueue.written, History.next, layout.back_eq]
  · rw [History.next, same _ (Nat.le_trans flushed_le completed_le)]
    exact agrees.wItem calm
  · rw [History.next, same _ (Nat.le_trans flushed_le completed_le)]
    exact agrees.contention
  · intro item here
    obtain ⟨i, rfl, above, below, ahead⟩ := agrees.rItem item here
    exact ⟨i, (same i (by omega)).symm, above, below, ahead⟩

/-- The end of `Flush`: all three pointers of the writer are where the items are complete. -/
theorem flushed (agrees : state.Agrees N history addr last)
    (some_left : history.flushed ≠ history.completed) (nothing : state.writer.pending = [])
    {returned : Bool} (allowed : history.Allows (.flush returned)) :
    Agrees N { state with contention := state.fItem, wItem := state.fItem, writer := .idle }
      (history.next (.flush returned)) addr last := by
  obtain ⟨_, returned_le, flushed_le, completed_le, _⟩ := agrees.orderly
  have orderly := agrees.orderly.next allowed
  have next : history.next (.flush returned) =
      { history with flushed := history.completed, asleep := false } := by
    rw [History.next, if_neg some_left]
  rw [next] at orderly ⊢
  refine
    { agrees with
      orderly := orderly
      layout := by simpa [nothing] using agrees.layout
      full := by simpa [nothing] using agrees.full
      wItem := fun _ => agrees.fItem
      contention := by simpa using agrees.fItem
      rItem := ?_
      taking := fun taking => Nat.lt_of_lt_of_le (agrees.taking taking) flushed_le
      flushing := by simp
      storing := by simp }
  intro item here
  obtain ⟨i, rfl, above, below, ahead⟩ := agrees.rItem item here
  exact ⟨i, rfl, above, Nat.le_trans below flushed_le, ahead⟩

section

variable (positive : 0 < N)

include positive

theorem write_continues (agrees : state.Agrees N history addr last) (idle : state.writer = .idle) :
    Continues N history (state.write N value incomplete) := by
  have nothing : state.writer.pending = [] := by simp [idle]
  have calm : state.writer ≠ .storing := by rw [idle]; nofun
  obtain ⟨queue, stored, endPos, _, _, pushed⟩ :=
    (agrees.layout_idle nothing).store_push positive (agrees.room nothing) value
  have before := agrees.room nothing
  by_cases full : queue.push.endPos = N
  · refine ⟨none, { state with queue := queue.push, writer := .pushing value incomplete }, ?_,
      addr, last, ?_⟩
    · simp [SpscQueue.write, stored, full]
    · exact
        { orderly := agrees.orderly
          layout := pushed
          full := by simp [full]
          fItem := agrees.fItem
          wItem := fun _ => agrees.wItem calm
          contention := agrees.contention
          rItem := agrees.rItem
          taking := agrees.taking
          flushing := nofun
          storing := nofun }
  · refine ⟨some (.write value incomplete), state.written queue.push incomplete, ?_, trivial,
      addr, last, agrees.written pushed ?_ (fun _ _ => rfl) calm⟩
    · simp [SpscQueue.write, stored, full]
    · have := pushed.endPos_le
      omega

theorem pushing_continues (agrees : state.Agrees N history addr last) {fresh : Addr}
    (pushing : state.writer = .pushing value incomplete)
    (unallocated : state.queue.heap fresh = none) :
    Continues N history (state.writerStep fresh) := by
  have full : state.queue.endPos = N := agrees.full.mpr (by simp [pushing])
  obtain ⟨queue, turned, endPos, -, layout⟩ := agrees.layout.turnover positive full unallocated
  rw [pushing, Writer.pending_pushing] at layout
  refine ⟨some (.write value incomplete), state.written queue incomplete, ?_, trivial, _, last + 1,
    agrees.written layout (by omega) (fun i below => agrees.layout.place_update positive ?_)
      (by rw [pushing]; nofun)⟩
  · simp [SpscQueue.writerStep, pushing, turned]
  · rw [List.length_append]
    omega

theorem unwrite_continues (agrees : state.Agrees N history addr last)
    (idle : state.writer = .idle) : Continues N history (state.unwrite N) := by
  obtain ⟨_, returned_le, flushed_le, completed_le, _⟩ := agrees.orderly
  have nothing : state.writer.pending = [] := by simp [idle]
  have layout := agrees.layout_idle nothing
  have back : state.queue.back = some (place N addr history.written.length) := layout.back_eq
  by_cases all : history.completed = history.written.length
  · refine ⟨some (.unwrite none), state, ?_, all, addr, last, agrees⟩
    rw [SpscQueue.unwrite, if_pos (by rw [agrees.fItem, back, all])]
    rfl
  · obtain ⟨values, value, split⟩ : ∃ values value, history.written = values ++ [value] := by
      rcases List.eq_nil_or_concat history.written with empty | ⟨values, value, split⟩
      · rw [empty, List.length_nil] at completed_le all
        omega
      · exact ⟨values, value, by rw [split, List.concat_eq_append]⟩
    have length : history.written.length = values.length + 1 := by rw [split]; simp
    have different : state.fItem ≠ state.queue.back := by
      rw [agrees.fItem, back]
      intro same
      exact all ((agrees.place_inj positive (by omega) completed_le (by omega) (Nat.le_refl _)).mp
        (Option.some_inj.mp same))
    rw [split] at layout
    obtain ⟨queue, last', unpushed, room, shorter, loaded⟩ :=
      layout.unpush positive (agrees.room nothing) (by omega)
    have allowed : history.Allows (.unwrite (some value)) :=
      ⟨by omega, by rw [split, List.getLast?_concat]⟩
    have popped : history.written.dropLast = values := by rw [split, List.dropLast_concat]
    refine ⟨some (.unwrite (some value)), { state with queue := queue }, ?_, allowed, addr, last',
      { agrees with
        orderly := agrees.orderly.next allowed
        layout := ?_
        full := ?_ }⟩
    · simp [SpscQueue.unwrite, different, unpushed, loaded]
    · simpa [History.next, popped, nothing] using shorter
    · simpa [nothing] using Nat.ne_of_lt room

theorem flush_continues (agrees : state.Agrees N history addr last) (idle : state.writer = .idle) :
    Continues N history state.flush := by
  obtain ⟨_, returned_le, flushed_le, completed_le, _⟩ := agrees.orderly
  have nothing : state.writer.pending = [] := by simp [idle]
  have wItem := agrees.wItem (by simp [idle])
  by_cases same : history.flushed = history.completed
  · have allowed : history.Allows (.flush true) := by simp [History.Allows, same]
    refine ⟨some (.flush true), state, ?_, allowed, addr, last, ?_⟩
    · rw [SpscQueue.flush, if_pos (by rw [wItem, agrees.fItem, same])]
      rfl
    · rw [History.next, if_pos same]
      exact agrees
  · have different : state.wItem ≠ state.fItem := by
      rw [wItem, agrees.fItem]
      intro equal
      exact same ((agrees.place_inj positive returned_le (by omega) (by omega) completed_le).mp
        (Option.some_inj.mp equal))
    refine ⟨none, { state with writer := .flushing }, ?_, addr, last,
      { agrees with
        layout := by simpa [nothing] using agrees.layout
        full := by simpa [nothing] using agrees.full
        wItem := fun _ => wItem
        flushing := fun _ => same
        storing := by rintro ⟨⟩ }⟩
    rw [SpscQueue.flush, if_neg different]
    rfl

end

theorem flushing_continues (agrees : state.Agrees N history addr last) {fresh : Addr}
    (flushing : state.writer = .flushing) : Continues N history (state.writerStep fresh) := by
  have some_left := agrees.flushing (Or.inl flushing)
  have nothing : state.writer.pending = [] := by simp [flushing]
  have wItem := agrees.wItem (by rw [flushing]; nofun)
  have contention := agrees.contention
  cases asleep : history.asleep with
  | false =>
      rw [asleep] at contention
      have allowed : history.Allows (.flush true) := by simp [History.Allows, asleep]
      refine ⟨some (.flush true), _, ?_, allowed, addr, last,
        agrees.flushed some_left nothing allowed⟩
      simp [SpscQueue.writerStep, flushing, contention, wItem]
  | true =>
      rw [asleep] at contention
      refine ⟨none, { state with wItem := state.contention, writer := .storing }, ?_, addr, last,
        { agrees with
          layout := by simpa [nothing] using agrees.layout
          full := by simpa [nothing] using agrees.full
          wItem := fun calm => absurd rfl calm
          flushing := fun _ => some_left
          storing := fun _ => asleep }⟩
      simp [SpscQueue.writerStep, flushing, contention, wItem]

theorem storing_continues (agrees : state.Agrees N history addr last) {fresh : Addr}
    (storing : state.writer = .storing) : Continues N history (state.writerStep fresh) := by
  have some_left := agrees.flushing (Or.inr storing)
  have allowed : history.Allows (.flush false) := by
    simp [History.Allows, some_left, agrees.storing storing]
  refine ⟨some (.flush false), _, ?_, allowed, addr, last,
    agrees.flushed some_left (by simp [storing]) allowed⟩
  simp [SpscQueue.writerStep, storing]

theorem checkRead_continues (agrees : state.Agrees N history addr last)
    (idle : state.reader = .idle) (reading : Bool) :
    Continues N history (state.checkRead reading) := by
  obtain ⟨_, returned_le, flushed_le, completed_le, _⟩ := agrees.orderly
  have emptied : state.reader.emptied = none := by simp [idle]
  have front : state.queue.front = some (place N addr history.returned.length) :=
    agrees.layout.front_eq
  by_cases prefetched : state.queue.front ≠ state.rItem ∧ state.rItem ≠ none
  · obtain ⟨item, here⟩ := Option.ne_none_iff_exists'.mp prefetched.2
    obtain ⟨i, rfl, above, below, _⟩ := agrees.rItem item here
    have ahead : history.returned.length < i := by
      have := prefetched.1
      rw [front, here] at this
      have : history.returned.length ≠ i := fun same => this (by rw [same])
      omega
    cases reading with
    | true =>
        refine ⟨none, { state with reader := .taking }, ?_, addr, last,
          { agrees with
            layout := by simpa [emptied] using agrees.layout
            rItem := ?_
            taking := fun _ => by omega }⟩
        · rw [SpscQueue.checkRead, if_pos prefetched]
          rfl
        · intro item' here'
          obtain rfl := Option.some_inj.mp (here.symm.trans here')
          exact ⟨i, rfl, above, below, fun _ => ahead⟩
    | false =>
        refine ⟨some (.checkRead true), state, ?_, ?_, addr, last, agrees⟩
        · rw [SpscQueue.checkRead, if_pos prefetched]
          rfl
        · exact Nat.lt_of_lt_of_le ahead below
  · refine ⟨none, { state with reader := .checking reading }, ?_, addr, last,
      { agrees with
        layout := by simpa [emptied] using agrees.layout
        rItem := ?_
        taking := nofun }⟩
    · rw [SpscQueue.checkRead, if_neg prefetched]
      rfl
    · intro item here
      obtain ⟨i, rfl, above, below, _⟩ := agrees.rItem item here
      exact ⟨i, rfl, above, below, nofun⟩

theorem fails (agrees : state.Agrees N history addr last) {reading : Bool}
    (checking : state.reader = .checking reading)
    (nothing : history.returned.length = history.flushed) {rItem : Option Item}
    (seen : rItem = none ∨ rItem = state.queue.front) :
    Continues N history (some (some (if reading then .read none else .checkRead false),
      { state with contention := none, rItem := rItem, reader := .idle })) := by
  have kept : Agrees N { state with contention := none, rItem := rItem, reader := .idle }
      { history with asleep := true } addr last :=
    { agrees with
      orderly := { agrees.orderly with asleep := fun _ => nothing }
      layout := by simpa [checking] using agrees.layout
      contention := by simp
      rItem := by
        rintro item here
        rcases seen with gone | front
        · simp [gone] at here
        · rw [front, agrees.layout.front_eq] at here
          exact ⟨_, (Option.some_inj.mp here).symm, (Nat.le_refl _), agrees.orderly.returned_le,
            nofun⟩
      taking := nofun
      storing := fun _ => rfl }
  cases reading with
  | true => exact ⟨some (.read none), _, rfl, nothing, addr, last, kept⟩
  | false => exact ⟨some (.checkRead false), _, rfl, nothing, addr, last, kept⟩

theorem checking_continues (agrees : state.Agrees N history addr last) (positive : 0 < N)
    {reading : Bool} (checking : state.reader = .checking reading) :
    Continues N history (state.readerStep N) := by
  obtain ⟨_, returned_le, flushed_le, completed_le, slept⟩ := agrees.orderly
  have front : state.queue.front = some (place N addr history.returned.length) :=
    agrees.layout.front_eq
  have contention := agrees.contention
  cases asleep : history.asleep with
  | true =>
      rw [asleep, if_pos rfl] at contention
      have nothing := slept asleep
      have result : state.readerStep N =
          some (some (if reading then .read none else .checkRead false),
            { state with contention := none, rItem := none, reader := .idle }) := by
        simp [SpscQueue.readerStep, checking, SpscQueue.prefetch, contention, front]
      rw [result]
      exact agrees.fails checking nothing (Or.inl rfl)
  | false =>
      rw [asleep, if_neg nofun] at contention
      by_cases nothing : history.returned.length = history.flushed
      · have result : state.readerStep N =
            some (some (if reading then .read none else .checkRead false),
              { state with contention := none, rItem := state.queue.front, reader := .idle }) := by
          simp [SpscQueue.readerStep, checking, SpscQueue.prefetch, contention, front, nothing]
        rw [result]
        exact agrees.fails checking nothing (Or.inr rfl)
      · have different : state.contention ≠ state.queue.front := by
          rw [contention, front]
          intro same
          have := (agrees.place_inj positive (by omega) (by omega) (Nat.le_refl _) (by omega)).mp
            (Option.some_inj.mp same)
          omega
        have ahead : ¬(state.queue.front = state.contention ∨ state.contention = none) := by
          rintro (same | gone)
          · exact different same.symm
          · simp [contention] at gone
        have moved : ∀ reader : Reader, reader.emptied = none →
            Agrees N { state with rItem := state.contention, reader := reader } history addr
              last := by
          intro reader emptied
          exact
            { agrees with
              layout := by simpa [checking, emptied] using agrees.layout
              rItem := by
                intro item here
                rw [contention] at here
                exact ⟨_, (Option.some_inj.mp here).symm, returned_le, (Nat.le_refl _),
                  fun _ => by omega⟩
              taking := fun _ => by omega }
        cases reading with
        | true =>
            refine ⟨none, _, ?_, addr, last, moved .taking rfl⟩
            simp [SpscQueue.readerStep, checking, SpscQueue.prefetch, different, ahead]
        | false =>
            refine ⟨some (.checkRead true), _, ?_, ?_, addr, last, moved .idle rfl⟩
            · simp [SpscQueue.readerStep, checking, SpscQueue.prefetch, different, ahead]
            · exact Nat.lt_of_le_of_ne returned_le nothing

theorem taking_continues (agrees : state.Agrees N history addr last) (positive : 0 < N)
    (taking : state.reader = .taking) : Continues N history (state.readerStep N) := by
  obtain ⟨_, returned_le, flushed_le, completed_le, slept⟩ := agrees.orderly
  have ready := agrees.taking taking
  have layout := agrees.layout
  rw [taking, Reader.emptied_taking] at layout
  obtain ⟨value, here⟩ : ∃ value, history.written[history.returned.length]? = some value :=
    ⟨_, List.getElem?_eq_getElem (by omega)⟩
  have loaded : state.queue.load state.queue.front = some value := by
    rw [layout.front_eq]
    exact layout.values _ value (Nat.le_refl _) (by rwa [List.getElem?_append_left (by omega)])
  have filled : history.returned.length < (history.written ++ state.writer.pending).length := by
    rw [List.length_append]
    omega
  obtain ⟨queue, emptied, popped, endPos, shorter⟩ := layout.pop positive filled
  have allowed : history.Allows (.read (some value)) := ⟨ready, here⟩
  have result : state.readerStep N = some (some (.read (some value)),
      { state with
        queue := queue
        reader := match emptied with
          | none => .idle
          | some emptied => .recycling emptied }) := by
    cases emptied <;> simp [SpscQueue.readerStep, taking, loaded, popped]
  have returned : (history.next (.read (some value))).returned.length =
      history.returned.length + 1 := by simp [History.next]
  rw [result]
  refine ⟨_, _, rfl, allowed, addr, last,
    { agrees with
      orderly := agrees.orderly.next allowed
      layout := ?_
      full := by simpa [endPos] using agrees.full
      rItem := ?_
      taking := by cases emptied <;> rintro ⟨⟩
      storing := agrees.storing }⟩
  · rw [returned]
    cases emptied <;> exact shorter
  · intro item seen
    obtain ⟨i, rfl, above, below, ahead⟩ := agrees.rItem item seen
    have := ahead taking
    exact ⟨i, rfl, by omega, below, by cases emptied <;> rintro ⟨⟩⟩

theorem recycling_continues (agrees : state.Agrees N history addr last) (positive : 0 < N)
    {emptied : Addr} (recycling : state.reader = .recycling emptied) :
    Continues N history (state.readerStep N) := by
  have layout := agrees.layout
  rw [recycling, Reader.emptied_recycling] at layout
  obtain ⟨queue, recycled, endPos, kept⟩ := layout.recycle positive
  refine ⟨none, { state with queue := queue, reader := .idle }, ?_, addr, last,
    { agrees with
      layout := kept
      full := by simpa [endPos] using agrees.full
      rItem := ?_
      taking := nofun }⟩
  · simp [SpscQueue.readerStep, recycling, recycled]
  · intro item here
    obtain ⟨i, rfl, above, below, _⟩ := agrees.rItem item here
    exact ⟨i, rfl, above, below, nofun⟩

/-- Whatever an agreeing queue can do next is defined and allowed. -/
theorem continues (agrees : state.Agrees N history addr last) (positive : 0 < N)
    {action : Action α} (enabled : state.Enabled action) :
    Continues N history (state.exec N action) := by
  cases action with
  | write value incomplete => exact agrees.write_continues positive enabled
  | unwrite => exact agrees.unwrite_continues positive enabled
  | flush => exact agrees.flush_continues positive enabled
  | checkRead => exact agrees.checkRead_continues enabled false
  | read => exact agrees.checkRead_continues enabled true
  | writer fresh =>
      obtain ⟨busy, unallocated⟩ := enabled
      cases writer : state.writer with
      | idle => exact absurd writer busy
      | pushing value incomplete => exact agrees.pushing_continues positive writer unallocated
      | flushing => exact agrees.flushing_continues writer
      | storing => exact agrees.storing_continues writer
  | reader =>
      cases reader : state.reader with
      | idle => exact absurd reader enabled
      | checking reading => exact agrees.checking_continues positive reader
      | taking => exact agrees.taking_continues positive reader
      | recycling emptied => exact agrees.recycling_continues positive reader

end Agrees

variable {N : Nat}

/-- A queue after `Init`. -/
def Initial (N : Nat) (state : SpscQueue α) : Prop :=
  ∃ fresh fresh', fresh' ≠ fresh ∧ init N fresh fresh' = some state

theorem Initial.idle {state : SpscQueue α} (initial : Initial N state) :
    state.writer = .idle ∧ state.reader = .idle := by
  obtain ⟨fresh, fresh', _, set_up⟩ := initial
  rw [init] at set_up
  dsimp only at set_up
  split at set_up <;> obtain ⟨queue, _, rest⟩ := Option.bind_eq_some_iff.mp set_up <;>
    obtain rfl := Option.some_inj.mp rest <;> exact ⟨rfl, rfl⟩

/-- A queue that was set up agrees with the empty history. -/
theorem Initial.refines (positive : 0 < N) {state : SpscQueue α} (initial : Initial N state) :
    state.Refines N {} := by
  obtain ⟨fresh, fresh', distinct, set_up⟩ := initial
  have layout : Layout N (BatchQueue.init fresh).push (fun _ => fresh) 0 0 ([] : List α) none :=
    Layout.init positive fresh
  have start : ∀ {queue : BatchQueue α} {addr last}, Layout N queue addr 0 last [] none →
      queue.endPos < N →
      Refines N ⟨queue, queue.back, queue.back, queue.back, queue.back, .idle, .idle⟩ {} := by
    intro queue addr last layout room
    have back := layout.back_eq
    exact ⟨addr, last,
      { orderly := History.Orderly.empty
        layout := layout
        full := by simpa using Nat.ne_of_lt room
        fItem := back
        wItem := fun _ => back
        contention := back
        rItem := fun item here => ⟨0, (Option.some_inj.mp (back.symm.trans here)).symm,
          Nat.le_refl 0, Nat.le_refl 0, nofun⟩
        taking := nofun
        flushing := nofun
        storing := nofun }⟩
  by_cases full : (BatchQueue.init (α := α) fresh).push.endPos = N
  · have unallocated : (BatchQueue.init (α := α) fresh).push.heap fresh' = none := by
      simp [BatchQueue.init, BatchQueue.push, distinct]
    obtain ⟨queue, turned, endPos, -, turnedLayout⟩ := layout.turnover positive full unallocated
    rw [init] at set_up
    simp [full, turned] at set_up
    exact set_up ▸ start turnedLayout (by omega)
  · simp [init, full] at set_up
    exact set_up ▸ start layout (Nat.lt_of_le_of_ne layout.endPos_le full)

/-- The queue follows its history. -/
theorem simulation (positive : 0 < N) :
    Simulation (Step (α := α) N) (fun _ _ => True) History.Allows History.next (Refines N) where
  silent := by
    rintro state state' history ⟨addr, last, agrees⟩ ⟨action, enabled, done⟩
    obtain ⟨label, next, result, follows⟩ := agrees.continues positive enabled
    obtain ⟨rfl, rfl⟩ := Prod.mk.inj (Option.some_inj.mp (result.symm.trans done))
    exact follows
  visible := by
    rintro state state' history label ⟨addr, last, agrees⟩ ⟨action, enabled, done⟩ -
    obtain ⟨label', next, result, follows⟩ := agrees.continues positive enabled
    obtain ⟨rfl, rfl⟩ := Prod.mk.inj (Option.some_inj.mp (result.symm.trans done))
    exact follows

/-- In every run of a queue, what was returned is a prefix of what was written and not unwritten, a
value is returned after a `Flush` that found it completed, a `Read` fails only when it has caught up
with the flushes, and `Flush` returns false exactly when there is something to flush and a failed
`CheckRead` has left `contention_` null; and no step is undefined. -/
theorem delivers_in_order (positive : 0 < N) {start state : SpscQueue α} {trace : List (Label α)}
    (initial : Initial N start) (run : Run (Step N) start trace state) :
    (history trace).returned <+: (history trace).written ∧
    (∀ before value after, trace = before ++ .read (some value) :: after →
      ∃ earlier returned later, before = earlier ++ .flush returned :: later ∧
        (history before).returned.length < (history earlier).completed) ∧
    (∀ before after, trace = before ++ .read none :: after →
      (history before).returned.length = (history before).flushed) ∧
    (∀ before returned after, trace = before ++ .flush returned :: after →
      (returned = false ↔ (history before).flushed ≠ (history before).completed ∧
        (history before).asleep = true)) ∧
    (state.contention = none ↔ (history trace).asleep = true) ∧
    ∀ action, state.Enabled action → (state.exec N action).isSome := by
  obtain ⟨⟨addr, last, agrees⟩, allowed⟩ :=
    (simulation positive).follows (initial.refines positive) run fun _ _ _ _ => trivial
  refine ⟨agrees.orderly.returned, ?_, ?_, ?_, ?_, ?_⟩
  · intro before value after split
    exact flush_of_flushed (allowed before _ after split).1
  · exact fun before after split => allowed before _ after split
  · exact fun before returned after split => allowed before _ after split
  · rw [agrees.contention]
    cases asleep : (trace.foldl History.next {}).asleep <;> simp [history, asleep]
  · intro action enabled
    obtain ⟨label, next, result, _⟩ := agrees.continues positive enabled
    rw [result]
    rfl

/-- One item goes through a queue with one place in each chunk. -/
theorem delivers_one :
    ∃ start state, Initial 1 start ∧
      Run (Step 1) start [.write 7 false, .flush true, .read (some 7)] state ∧
      [7] <+: (history [.write 7 false, .flush true, .read (some 7)]).written := by
  have initial : Initial 1 ((init (α := Nat) 1 0 1).get rfl) := ⟨0, 1, by decide, rfl⟩
  have written : Run (Step 1) ((init (α := Nat) 1 0 1).get rfl) ([] ++ [Label.write 7 false]) _ :=
    (Run.nil.silent ⟨.write 7 false, rfl, rfl⟩).visible ⟨.writer 2, ⟨nofun, rfl⟩, rfl⟩
  have flushed : Run (Step 1) _ (_ ++ [Label.flush true]) _ :=
    (written.silent ⟨.flush, rfl, rfl⟩).visible ⟨.writer 3, ⟨nofun, rfl⟩, rfl⟩
  have taken : Run (Step 1) _ (_ ++ [Label.read (some 7)]) _ :=
    ((flushed.silent ⟨.read, rfl, rfl⟩).silent ⟨.reader, nofun, rfl⟩).visible
      ⟨.reader, nofun, rfl⟩
  exact ⟨_, _, initial, taken, (delivers_in_order Nat.one_pos initial taken).1⟩

end SpscQueue

end FlashForwarder
