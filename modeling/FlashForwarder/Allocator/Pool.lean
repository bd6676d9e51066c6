import FlashForwarder.Allocator.SizeClass
import FlashForwarder.Library.LinkedList
import Mathlib.Data.List.Perm.Basic

/-!
# The pool

The allocator without its threads: the idle queue is a list of messages that come out in the order
in which they were recycled.  What every step keeps of the sizes needs no care of the users; that no
message is in two places needs that a user gives back only what it holds.
-/

namespace FlashForwarder

open LinkedList

namespace MessageAllocator

/-- The messages, the free lists and the messages on their way to them. -/
structure Pool where
  messages : Addr → Option Message
  freeLists : Nat → Option Addr
  /-- The messages that were recycled and not yet put into a list. -/
  idle : List Addr
  /-- The message whose `Recycle` has not returned. -/
  recycling : Option Addr

namespace Pool

/-- Store a message. -/
def store (pool : Pool) (msg : Addr) (message : Option Message) : Pool :=
  { pool with messages := Function.update pool.messages msg message }

@[simp] theorem store_messages (pool : Pool) (msg : Addr) (message : Option Message) :
    (pool.store msg message).messages = Function.update pool.messages msg message := rfl

/-- A message is put in front of the list of its index. -/
def putBack (pool : Pool) (msg : Addr) (message : Message) : Pool :=
  let freeHead := pool.freeLists message.index.toNat
  { pool.store msg (some { message with next := freeHead }) with
    freeLists := Function.update pool.freeLists message.index.toNat (some msg) }

/-- What a label says of the pool. -/
inductive Step (pool : Pool) : Label → Pool → Prop
  | oversized {capacity : Int} {fresh : Addr} : 2 ^ allocateStop < capacity →
      pool.messages fresh = none →
      Step pool (.allocated capacity fresh (Message.new.init (-1) capacity))
        (pool.store fresh (some (Message.new.init (-1) capacity)))
  | made {capacity : Int} {fresh : Addr} {message : Message} : capacity ≤ 2 ^ allocateStop →
      indexOf capacity < slots → pool.freeLists (indexOf capacity) = none →
      pool.messages fresh = none →
      message = Message.new.init (indexOf capacity) (2 ^ (allocateStart + indexOf capacity + 1)) →
      Step pool (.allocated capacity fresh message) (pool.store fresh (some message))
  | reused {capacity : Int} {head : Addr} {message : Message} : capacity ≤ 2 ^ allocateStop →
      indexOf capacity < slots → pool.freeLists (indexOf capacity) = some head →
      pool.messages head = some message →
      Step pool (.allocated capacity head { message with next := none })
        { pool.store head (some { message with next := none }) with
          freeLists := Function.update pool.freeLists (indexOf capacity) message.next }
  | deleted {msg : Addr} {message : Message} : pool.messages msg = some message →
      message.index < 0 → Step pool (.released msg) (pool.store msg none)
  | released {msg : Addr} {message : Message} : pool.messages msg = some message →
      0 ≤ message.index → message.index < slots →
      Step pool (.released msg) (pool.putBack msg message.clear)
  | dropped {msg : Addr} {message : Message} : pool.messages msg = some message →
      message.index < 0 → Step pool (.recycling msg message) (pool.store msg none)
  | recycling {msg : Addr} {message : Message} : pool.messages msg = some message →
      0 ≤ message.index →
      Step pool (.recycling msg message)
        { pool with idle := pool.idle ++ [msg], recycling := some msg }
  | recycled : Step pool .recycled { pool with recycling := none }
  | moved {msg : Addr} {message : Message} {rest : List Addr} : pool.idle = msg :: rest →
      pool.messages msg = some message → 0 ≤ message.index → message.index < slots →
      Step pool (.moved msg) { pool.putBack msg message with idle := rest }
  | consumed : (∀ msg ∈ pool.idle, pool.recycling = some msg) → Step pool .consumed pool
  | set {msg : Addr} {message : Message} {setting : Setting} : pool.messages msg = some message →
      Step pool (.set msg setting) (pool.store msg (some (message.set setting)))

variable {pool after : Pool} {label : Label}

/-! ## Sizes -/

/-- There is a message with this index. -/
def HasIndex (messages : Addr → Option Message) (msg : Addr) (index : Int) : Prop :=
  ∃ message, messages msg = some message ∧ message.index = index

/-- An index that no message of a list loses is not lost. -/
theorem HasIndex.update {messages : Addr → Option Message} {msg other : Addr} {index : Int}
    {stored : Option Message} (has : HasIndex messages other index) (nonneg : 0 ≤ index)
    (kept : ∀ message, messages msg = some message → 0 ≤ message.index →
      ∃ message', stored = some message' ∧ message'.index = message.index) :
    HasIndex (Function.update messages msg stored) other index := by
  obtain ⟨message, found, rfl⟩ := has
  by_cases same : other = msg
  · subst same
    obtain ⟨message', here, index⟩ := kept message found nonneg
    exact ⟨message', by rw [Function.update_self, here], index⟩
  · exact ⟨message, by rw [Function.update_of_ne same, found], rfl⟩

/-- A message is too big for the lists, or it has an index and the capacity that goes with it. -/
def Fits (message : Message) : Prop :=
  message.index = -1 ∨ 0 ≤ message.index ∧ message.index < slots ∧
    message.capacity = 2 ^ (allocateStart + message.index.toNat + 1)

theorem fits_oversized (capacity : Int) : Fits (Message.new.init (-1) capacity) := .inl rfl

theorem fits_made {index : Nat} (small : index < slots) :
    Fits (Message.new.init index (2 ^ (allocateStart + index + 1))) := by
  refine .inr ⟨Int.natCast_nonneg index, Int.ofNat_lt.mpr small, ?_⟩
  rw [Message.init, Int.toNat_natCast]

/-- Every message fits its index, and what is on a list or on its way there has its index. -/
structure Sized (pool : Pool) : Prop where
  fits : ∀ msg message, pool.messages msg = some message → Fits message
  idle : ∀ msg ∈ pool.idle, ∃ index, 0 ≤ index ∧ HasIndex pool.messages msg index
  lists : ∀ index < slots, ∀ msg, pool.freeLists index = some msg →
    HasIndex pool.messages msg index
  next : ∀ msg message, pool.messages msg = some message → 0 ≤ message.index →
    ∀ other, message.next = some other → HasIndex pool.messages other message.index

namespace Sized

/-- A message is stored that fits and points to one of its own index, and none of another index or
in a list is lost. -/
theorem store (sized : pool.Sized) {msg : Addr} {stored : Option Message}
    (kept : ∀ message, pool.messages msg = some message → 0 ≤ message.index →
      ∃ message', stored = some message' ∧ message'.index = message.index)
    (fits : ∀ message', stored = some message' → Fits message')
    (next : ∀ message', stored = some message' → 0 ≤ message'.index →
      ∀ other, message'.next = some other → HasIndex pool.messages other message'.index) :
    (pool.store msg stored).Sized := by
  constructor
  · intro other message found
    rw [store_messages, Function.update_apply] at found
    split at found
    · exact fits message found
    · exact sized.fits other message found
  · intro other member
    obtain ⟨index, nonneg, here⟩ := sized.idle other member
    exact ⟨index, nonneg, here.update nonneg kept⟩
  · intro index small other head
    exact (sized.lists index small other head).update (Int.natCast_nonneg index) kept
  · intro other message found nonneg behind points
    rw [store_messages, Function.update_apply] at found
    split at found
    · exact (next message found nonneg behind points).update nonneg kept
    · exact (sized.next other message found nonneg behind points).update nonneg kept

theorem create (sized : pool.Sized) {fresh : Addr} {message : Message}
    (unused : pool.messages fresh = none) (fits : Fits message) (last : message.next = none) :
    (pool.store fresh (some message)).Sized := by
  refine sized.store ?_ ?_ ?_
  · intro old found
    exact absurd (unused.symm.trans found) (by simp)
  · rintro message' here
    obtain rfl := Option.some_inj.mp here
    exact fits
  · intro message' here nonneg other points
    obtain rfl := Option.some_inj.mp here
    exact absurd (last.symm.trans points) (by simp)

theorem change (sized : pool.Sized) {msg : Addr} {message message' : Message}
    (found : pool.messages msg = some message) (index : message'.index = message.index)
    (capacity : message'.capacity = message.capacity)
    (next : 0 ≤ message.index → ∀ other, message'.next = some other →
      HasIndex pool.messages other message.index) :
    (pool.store msg (some message')).Sized := by
  refine sized.store ?_ ?_ ?_
  · intro old here _
    obtain rfl := Option.some_inj.mp (found.symm.trans here)
    exact ⟨message', rfl, index⟩
  · intro stored here
    obtain rfl := Option.some_inj.mp here
    have fits := sized.fits msg message found
    rwa [Fits, ← index, ← capacity] at fits
  · intro stored here nonneg other points
    obtain rfl := Option.some_inj.mp here
    rw [index] at nonneg ⊢
    exact next nonneg other points

theorem delete (sized : pool.Sized) {msg : Addr} {message : Message}
    (found : pool.messages msg = some message) (index : message.index < 0) :
    (pool.store msg none).Sized := by
  refine sized.store ?_ ?_ ?_
  · intro old here nonneg
    obtain rfl := Option.some_inj.mp (found.symm.trans here)
    omega
  · exact fun _ impossible => absurd impossible (by simp)
  · exact fun _ impossible => absurd impossible (by simp)

/-- A list begins with a message of its index, or is empty. -/
theorem setList (sized : pool.Sized) {index : Nat} {head : Option Addr}
    (has : ∀ msg, head = some msg → HasIndex pool.messages msg index) :
    ({ pool with freeLists := Function.update pool.freeLists index head } : Pool).Sized := by
  refine { sized with lists := ?_ }
  intro other small msg here
  dsimp only at here
  rw [Function.update_apply] at here
  split at here
  · rename_i same
    rw [same]
    exact has msg here
  · exact sized.lists other small msg here

theorem putBack (sized : pool.Sized) {msg : Addr} {message message' : Message}
    (found : pool.messages msg = some message) (index : message'.index = message.index)
    (capacity : message'.capacity = message.capacity) (nonneg : 0 ≤ message.index)
    (small : message.index < slots) : (pool.putBack msg message').Sized := by
  have listed : (message'.index.toNat : Int) = message.index := by omega
  have stored : (pool.store msg (some { message' with
      next := pool.freeLists message'.index.toNat })).Sized := by
    refine sized.change found index capacity fun _ other points => ?_
    rw [← listed]
    exact sized.lists _ (by omega) other points
  refine stored.setList fun other here => ?_
  obtain rfl := Option.some_inj.mp here
  exact ⟨_, Function.update_self _ _ _, listed.symm ▸ index⟩

theorem step (sized : pool.Sized) (stepped : pool.Step label after) : after.Sized := by
  cases stepped with
  | oversized big unused => exact sized.create unused (fits_oversized _) rfl
  | made small index empty unused made =>
      rw [made]
      exact sized.create unused (fits_made index) rfl
  | @reused capacity head message small index first found =>
      obtain ⟨message', found', listed⟩ := sized.lists _ index head first
      obtain rfl := Option.some_inj.mp (found.symm.trans found')
      have stored : (pool.store head (some { message with next := none })).Sized :=
        sized.change found rfl rfl fun _ _ impossible => absurd impossible (by simp)
      refine stored.setList fun other points => ?_
      obtain ⟨behind, there, same⟩ := sized.next head message found (by omega) other points
      by_cases again : other = head
      · subst again
        exact ⟨_, Function.update_self _ _ _, listed⟩
      · exact ⟨behind, (Function.update_of_ne again _ _).trans there, same.trans listed⟩
  | deleted found index => exact sized.delete found index
  | released found nonneg small => exact sized.putBack found rfl rfl nonneg small
  | dropped found index => exact sized.delete found index
  | recycling found nonneg =>
      refine { sized with idle := fun other member => ?_ }
      rcases List.mem_append.mp member with earlier | last
      · exact sized.idle other earlier
      · rw [List.mem_singleton.mp last]
        exact ⟨_, nonneg, _, found, rfl⟩
  | recycled => exact { sized with }
  | moved first found nonneg small =>
      have moved := sized.putBack found rfl rfl nonneg small
      refine { moved with idle := fun other member => moved.idle other ?_ }
      show other ∈ pool.idle
      rw [first]
      exact List.mem_cons_of_mem _ member
  | consumed => exact sized
  | set found =>
      rename_i msg message setting
      refine sized.change found ?_ ?_ fun nonneg other points => ?_
      · cases setting <;> rfl
      · cases setting <;> rfl
      · refine sized.next msg message found nonneg other ?_
        cases setting <;> exact points

/-- What is met on a list has the index of the list, and the capacity that goes with it. -/
theorem of_met (sized : pool.Sized) {index : Nat} (small : index < slots) {msg : Addr}
    (met : Met Message.next pool.messages (pool.freeLists index) msg) :
    ∃ message, pool.messages msg = some message ∧ message.index = index ∧
      message.capacity = 2 ^ (index + 6) := by
  have has : HasIndex pool.messages msg index := by
    induction met with
    | head first => exact sized.lists index small _ first
    | next _ found points ih =>
        obtain ⟨message, found', here⟩ := ih
        obtain rfl := Option.some_inj.mp (found.symm.trans found')
        rw [← here]
        exact sized.next _ _ found (by omega) _ points
  obtain ⟨message, found, here⟩ := has
  refine ⟨message, found, here, ?_⟩
  rcases sized.fits msg message found with big | ⟨-, -, capacity⟩
  · omega
  · rw [capacity, here, allocateStart, Int.toNat_natCast]
    congr 1
    omega

end Sized

/-- A message with an index is never deleted, and keeps its index. -/
theorem Step.keeps (stepped : pool.Step label after) {other : Addr} {index : Int}
    (nonneg : 0 ≤ index) (has : HasIndex pool.messages other index) :
    HasIndex after.messages other index := by
  have changed : ∀ {msg : Addr} {message message' : Message}, pool.messages msg = some message →
      message'.index = message.index →
      HasIndex (Function.update pool.messages msg (some message')) other index := by
    intro msg message message' found same
    refine has.update nonneg fun old here _ => ?_
    obtain rfl := Option.some_inj.mp (found.symm.trans here)
    exact ⟨message', rfl, same⟩
  have made : ∀ {fresh : Addr} {stored : Option Message}, pool.messages fresh = none →
      HasIndex (Function.update pool.messages fresh stored) other index := by
    intro fresh stored unused
    refine has.update nonneg fun old here _ => ?_
    exact absurd (unused.symm.trans here) (by simp)
  have deleted : ∀ {msg : Addr} {message : Message}, pool.messages msg = some message →
      message.index < 0 → HasIndex (Function.update pool.messages msg none) other index := by
    intro msg message found negative
    refine has.update nonneg fun old here _ => ?_
    obtain rfl := Option.some_inj.mp (found.symm.trans here)
    omega
  cases stepped with
  | oversized big unused => exact made unused
  | made small listed empty unused _ => exact made unused
  | reused small listed first found => exact changed found rfl
  | deleted found negative => exact deleted found negative
  | released found nonneg small => exact changed found rfl
  | dropped found negative => exact deleted found negative
  | recycling found nonneg => exact has
  | recycled => exact has
  | moved first found nonneg small => exact changed found rfl
  | consumed all => exact has
  | @set msg message setting found => exact changed found (by cases setting <;> rfl)

theorem Step.of_allocated {capacity : Int} {msg : Addr} {message : Message}
    (stepped : pool.Step (.allocated capacity msg message) after) :
    after.messages msg = some message := by
  cases stepped with
  | oversized big unused => exact Function.update_self _ _ _
  | made small listed empty unused made => exact Function.update_self _ _ _
  | reused small listed first found => exact Function.update_self _ _ _

/-! ## Places -/

/-- What has happened to the messages. -/
structure History where
  /-- The messages handed out and not given back. -/
  held : List Addr := []
  /-- The messages that were recycled and not yet put into a list. -/
  idle : List Addr := []
  /-- The message whose `Recycle` has not returned. -/
  recycling : Option Addr := none

namespace History

/-- What a label adds. -/
def next (history : History) : Label → History
  | .allocated _ msg _ => { history with held := msg :: history.held }
  | .released msg => { history with held := history.held.erase msg }
  | .recycling msg message =>
      if message.index < 0 then { history with held := history.held.erase msg }
      else
        { held := history.held.erase msg
          idle := history.idle ++ [msg]
          recycling := some msg }
  | .recycled => { history with recycling := none }
  | .moved _ => { history with idle := history.idle.tail }
  | .consumed | .set _ _ => history

/-- A user gives back, or changes, only what was handed out and not given back. -/
def Owns (history : History) : Label → Prop
  | .released msg | .recycling msg _ | .set msg _ => msg ∈ history.held
  | .allocated _ _ _ | .recycled | .moved _ | .consumed => True

/-- What is handed out is not held, and the idle messages are moved in their order until there is
none but that of a `Recycle` that has not returned. -/
def Allows (history : History) : Label → Prop
  | .allocated _ msg _ => msg ∉ history.held
  | .moved msg => history.idle.head? = some msg
  | .consumed => ∀ msg ∈ history.idle, history.recycling = some msg
  | .released _ | .recycling _ _ | .recycled | .set _ _ => True

end History

/-- All messages that are held, idle or in a list. -/
def places (history : History) (lists : Nat → List Addr) : List Addr :=
  history.held ++ (history.idle ++ (List.range slots).flatMap lists)

/-- Every message is in one place. -/
structure Apart (pool : Pool) (history : History) (lists : Nat → List Addr) : Prop where
  idle : history.idle = pool.idle
  recycling : history.recycling = pool.recycling
  linked : ∀ index < slots, Linked Message.next pool.messages (pool.freeLists index) (lists index)
  once : (places history lists).Nodup
  all : ∀ msg, msg ∈ places history lists ↔ ∃ message, pool.messages msg = some message

theorem flatMap_update_cons (lists : Nat → List Addr) (msg : Addr) {index count : Nat}
    (small : index < count) :
    ((List.range count).flatMap (Function.update lists index (msg :: lists index))).Perm
      (msg :: (List.range count).flatMap lists) := by
  induction count with
  | zero => exact absurd small (Nat.not_lt_zero index)
  | succ count ih =>
      simp only [List.range_succ, List.flatMap_append, List.flatMap_singleton]
      rcases Nat.lt_or_eq_of_le (Nat.le_of_lt_succ small) with before | rfl
      · rw [Function.update_of_ne (Nat.ne_of_gt before)]
        exact (ih before).append_right _
      · rw [Function.update_self]
        have others : (List.range index).flatMap
            (Function.update lists index (msg :: lists index)) =
              (List.range index).flatMap lists := by
          refine List.flatMap_congr fun other member => Function.update_of_ne ?_ _ _
          exact Nat.ne_of_lt (List.mem_range.mp member)
        rw [others]
        exact List.perm_middle

namespace Apart

variable {history : History} {lists : Nat → List Addr} {msg : Addr}

theorem held_apart (apart : pool.Apart history lists) (held : msg ∈ history.held) :
    msg ∉ history.idle ∧ ∀ index < slots, msg ∉ lists index := by
  have disjoint := List.disjoint_of_nodup_append apart.once held
  rw [imp_false, List.mem_append, not_or] at disjoint
  refine ⟨disjoint.1, fun index small listed => disjoint.2 ?_⟩
  exact List.mem_flatMap.mpr ⟨index, List.mem_range.mpr small, listed⟩

theorem idle_apart (apart : pool.Apart history lists) (idle : msg ∈ history.idle) {index : Nat}
    (small : index < slots) : msg ∉ lists index := by
  intro listed
  refine List.disjoint_of_nodup_append apart.once.of_append_right idle ?_
  exact List.mem_flatMap.mpr ⟨index, List.mem_range.mpr small, listed⟩

/-- Messages change their places, but none is made or deleted. -/
theorem relocate (apart : pool.Apart history lists) {history' : History} {lists' : Nat → List Addr}
    (perm : (places history' lists').Perm (places history lists))
    (idle : history'.idle = after.idle) (recycling : history'.recycling = after.recycling)
    (linked : ∀ index < slots,
      Linked Message.next after.messages (after.freeLists index) (lists' index))
    (same : ∀ msg, (∃ message, after.messages msg = some message) ↔
      ∃ message, pool.messages msg = some message) : after.Apart history' lists' where
  idle := idle
  recycling := recycling
  linked := linked
  once := perm.nodup_iff.mpr apart.once
  all msg := by rw [perm.mem_iff, apart.all, same]

theorem exists_update_iff {messages : Addr → Option Message} {message message' : Message}
    (found : messages msg = some message) (other : Addr) :
    (∃ stored, Function.update messages msg (some message') other = some stored) ↔
      ∃ stored, messages other = some stored := by
  by_cases same : other = msg
  · subst same
    simp [found]
  · rw [Function.update_of_ne same]

theorem create (apart : pool.Apart history lists) {fresh : Addr} {message : Message}
    (unused : pool.messages fresh = none) :
    fresh ∉ history.held ∧
      (pool.store fresh (some message)).Apart { history with held := fresh :: history.held }
        lists := by
  have outside : fresh ∉ places history lists := by
    intro member
    obtain ⟨message, found⟩ := (apart.all fresh).mp member
    exact absurd (unused.symm.trans found) (by simp)
  have unlisted : ∀ index < slots, fresh ∉ lists index := by
    intro index small listed
    refine outside (List.mem_append_right _ (List.mem_append_right _ ?_))
    exact List.mem_flatMap.mpr ⟨index, List.mem_range.mpr small, listed⟩
  refine ⟨fun held => outside (List.mem_append_left _ held), ?_⟩
  constructor
  · exact apart.idle
  · exact apart.recycling
  · exact fun index small => (apart.linked index small).update (unlisted index small) _
  · exact List.nodup_cons.mpr ⟨outside, apart.once⟩
  · intro msg
    rw [places, List.cons_append, List.mem_cons, store_messages]
    by_cases same : msg = fresh
    · subst same
      simp
    · rw [Function.update_of_ne same, ← apart.all msg]
      simp [same, places]

/-- A user changes a message that it holds. -/
theorem change (apart : pool.Apart history lists) {message message' : Message}
    (found : pool.messages msg = some message) (held : msg ∈ history.held) :
    (pool.store msg (some message')).Apart history lists :=
  apart.relocate (List.Perm.refl _) apart.idle apart.recycling
    (fun index small => (apart.linked index small).update ((apart.held_apart held).2 index small) _)
    (exists_update_iff found)

/-- A user gives back a message that is too big to be kept. -/
theorem delete (apart : pool.Apart history lists) (held : msg ∈ history.held) :
    (pool.store msg none).Apart { history with held := history.held.erase msg } lists := by
  have perm : (places history lists).Perm
      (msg :: places { history with held := history.held.erase msg } lists) :=
    (List.perm_cons_erase held).append_right _
  obtain ⟨gone, rest⟩ := List.nodup_cons.mp (perm.nodup_iff.mp apart.once)
  constructor
  · exact apart.idle
  · exact apart.recycling
  · exact fun index small =>
      (apart.linked index small).update ((apart.held_apart held).2 index small) _
  · exact rest
  · intro other
    rw [store_messages]
    by_cases same : other = msg
    · subst same
      simp [gone]
    · have here := apart.all other
      rw [perm.mem_iff, List.mem_cons] at here
      rw [Function.update_of_ne same, ← here]
      simp [same]

theorem linked_putBack (apart : pool.Apart history lists) {message : Message}
    (outside : ∀ index < slots, msg ∉ lists index) (index : Nat) (small : index < slots) :
    Linked Message.next (pool.putBack msg message).messages
      ((pool.putBack msg message).freeLists index)
      (Function.update lists message.index.toNat (msg :: lists message.index.toNat) index) := by
  by_cases same : index = message.index.toNat
  · subst same
    rw [putBack]
    dsimp only [store]
    rw [Function.update_self, Function.update_self]
    exact (apart.linked _ small).push (outside _ small) rfl
  · rw [putBack]
    dsimp only [store]
    rw [Function.update_of_ne same, Function.update_of_ne same]
    exact (apart.linked index small).update (outside index small) _

/-- A message that was held or idle goes into the list of its index. -/
theorem putBack (apart : pool.Apart history lists) {message message' : Message}
    (found : pool.messages msg = some message) {history' : History}
    (outside : ∀ index < slots, msg ∉ lists index) (small : message'.index.toNat < slots)
    (perm : (history.held ++ history.idle).Perm (msg :: (history'.held ++ history'.idle)))
    (recycling : history'.recycling = pool.recycling) :
    ∃ lists', ({ pool.putBack msg message' with idle := history'.idle } : Pool).Apart history'
      lists' := by
  refine ⟨_, apart.relocate ?_ rfl recycling (apart.linked_putBack outside)
    (exists_update_iff found)⟩
  rw [places, places, ← List.append_assoc, ← List.append_assoc]
  refine ((flatMap_update_cons lists msg small).append_left _).trans ?_
  refine List.perm_middle.trans ?_
  rw [← List.cons_append]
  exact perm.symm.append_right _

theorem reuse (apart : pool.Apart history lists) (sized : pool.Sized) {index : Nat}
    (small : index < slots) {message message' : Message}
    (first : pool.freeLists index = some msg) (found : pool.messages msg = some message) :
    msg ∉ history.held ∧
      ∃ lists', ({ pool.store msg (some message') with
        freeLists := Function.update pool.freeLists index message.next } : Pool).Apart
          { history with held := msg :: history.held } lists' := by
  obtain ⟨rest, listed, behind⟩ : ∃ rest, lists index = msg :: rest ∧
      Linked Message.next pool.messages message.next rest := by
    have linked := apart.linked index small
    cases list : lists index with
    | nil =>
        rw [list] at linked
        exact absurd (first.symm.trans linked) (by simp)
    | cons head rest =>
        rw [list] at linked
        obtain ⟨here, message, found', linked⟩ := linked
        obtain rfl := Option.some_inj.mp (first.symm.trans here)
        obtain rfl := Option.some_inj.mp (found.symm.trans found')
        exact ⟨rest, rfl, linked⟩
  have inside : msg ∈ lists index := by simp [listed]
  refine ⟨fun held => (apart.held_apart held).2 index small inside,
    Function.update lists index rest, ?_⟩
  refine apart.relocate ?_ apart.idle apart.recycling ?_ (exists_update_iff found)
  · have back := flatMap_update_cons (Function.update lists index rest) msg small
    rw [Function.update_self, Function.update_idem, ← listed, Function.update_eq_self] at back
    rw [places, places, List.cons_append, ← List.append_assoc, ← List.append_assoc]
    refine (List.perm_middle.symm).trans ?_
    exact back.symm.append_left _
  · intro other otherSmall
    dsimp only [store]
    by_cases same : other = index
    · subst same
      rw [Function.update_self, Function.update_self]
      have nodup := (apart.linked other small).nodup
      rw [listed] at nodup
      exact behind.update (List.nodup_cons.mp nodup).1 _
    · rw [Function.update_of_ne same, Function.update_of_ne same]
      have linked := apart.linked other otherSmall
      refine linked.update (fun again => same ?_) _
      obtain ⟨message₁, found₁, index₁, -⟩ := sized.of_met otherSmall (linked.mem_iff.mp again)
      obtain ⟨message₂, found₂, index₂⟩ := sized.lists index small msg first
      obtain rfl := Option.some_inj.mp (found₁.symm.trans found₂)
      omega

/-- Every step of which the users do their part keeps each message in one place. -/
theorem step (apart : pool.Apart history lists) (sized : pool.Sized)
    (stepped : pool.Step label after) (owns : history.Owns label) :
    history.Allows label ∧ ∃ lists', after.Apart (history.next label) lists' := by
  cases stepped with
  | oversized big unused =>
      obtain ⟨free, made⟩ := apart.create unused
      exact ⟨free, lists, made⟩
  | made small index empty unused made =>
      obtain ⟨free, made⟩ := apart.create unused
      exact ⟨free, lists, made⟩
  | reused small index first found => exact apart.reuse sized index first found
  | deleted found index => exact ⟨trivial, lists, apart.delete owns⟩
  | @released msg message found nonneg small =>
      refine ⟨trivial, ?_⟩
      have within : message.clear.index.toNat < slots := (Int.toNat_lt nonneg).mpr small
      have perm : (history.held ++ history.idle).Perm
          (msg :: ((history.next (.released msg)).held ++ (history.next (.released msg)).idle)) :=
        (List.perm_cons_erase owns).append_right _
      have back := apart.putBack found (apart.held_apart owns).2 within perm apart.recycling
      rwa [show (history.next (.released msg)).idle = pool.idle from apart.idle] at back
  | @dropped msg message found index =>
      refine ⟨trivial, lists, ?_⟩
      rw [History.next, if_pos index]
      exact apart.delete owns
  | @recycling msg message found nonneg =>
      refine ⟨trivial, lists, ?_⟩
      rw [History.next, if_neg (by omega)]
      refine apart.relocate ?_ (by rw [apart.idle]) rfl apart.linked fun _ => Iff.rfl
      have last : (history.idle ++ [msg] ++ (List.range slots).flatMap lists).Perm
          (msg :: (history.idle ++ (List.range slots).flatMap lists)) := by
        rw [List.append_assoc]
        exact List.perm_middle
      refine (last.append_left _).trans (List.perm_middle.trans ?_)
      exact (List.perm_cons_erase owns).symm.append_right _
  | recycled =>
      exact ⟨trivial, lists, { apart with recycling := rfl }⟩
  | @moved msg message rest first found nonneg small =>
      have here : history.idle = msg :: rest := apart.idle.trans first
      have within : message.index.toNat < slots := (Int.toNat_lt nonneg).mpr small
      have outside : ∀ index < slots, msg ∉ lists index := fun index small =>
        apart.idle_apart (by simp [here]) small
      have perm : (history.held ++ history.idle).Perm
          (msg :: ((history.next (.moved msg)).held ++ (history.next (.moved msg)).idle)) := by
        rw [History.next, here]
        exact List.perm_middle
      have back := apart.putBack found outside within perm apart.recycling
      rw [show (history.next (.moved msg)).idle = rest by rw [History.next, here]; rfl] at back
      exact ⟨by rw [History.Allows, here]; rfl, back⟩
  | consumed all =>
      refine ⟨fun msg member => ?_, lists, apart⟩
      rw [apart.idle] at member
      exact apart.recycling.trans (all msg member)
  | set found => exact ⟨trivial, lists, apart.change found owns⟩

end Apart

end Pool

end MessageAllocator

end FlashForwarder
