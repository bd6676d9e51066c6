import FlashForwarder.Library.RelaxedAtomics
import FlashForwarder.Library.Transition
import FlashForwarder.Pgm.Relay
import Mathlib.Order.WithBot

/-!
# What a receiver reports

Its I/O thread counts in `status_`, and whenever the status timer fires it stores the counters in
`atomic_status_`, one by one.  Any other thread loads them in `ReportStatus`, one by one.  All of
these accesses are relaxed, so that a report need not tell the state of any one moment.
-/

namespace FlashForwarder

open ProgramLoop Transition

/-- The counters of a receiver. -/
inductive Counter where
  | totalReceivedBytes
  | totalReceivedMsgs
  | totalDecodedBytes
  | lastMsgTimestamp
  | totalMissedPackets
  deriving DecidableEq

/-- The type of a counter. -/
def Counter.Value : Counter → Type
  | .lastMsgTimestamp => Int64
  | _ => UInt64

/-- `PGMReceiveStatus` -/
structure PGMReceiveStatus where
  totalReceivedBytes : UInt64 := 0
  totalReceivedMsgs : UInt64 := 0
  totalDecodedBytes : UInt64 := 0
  lastMsgTimestamp : Int64 := 0
  totalMissedPackets : UInt64 := 0
  deriving DecidableEq

namespace PGMReceiveStatus

/-- A counter of a status. -/
def get (status : PGMReceiveStatus) : (counter : Counter) → counter.Value
  | .totalReceivedBytes => status.totalReceivedBytes
  | .totalReceivedMsgs => status.totalReceivedMsgs
  | .totalDecodedBytes => status.totalDecodedBytes
  | .lastMsgTimestamp => status.lastMsgTimestamp
  | .totalMissedPackets => status.totalMissedPackets

/-- A counter of a status is written. -/
def set (status : PGMReceiveStatus) : (counter : Counter) → counter.Value → PGMReceiveStatus
  | .totalReceivedBytes, value => { status with totalReceivedBytes := value }
  | .totalReceivedMsgs, value => { status with totalReceivedMsgs := value }
  | .totalDecodedBytes, value => { status with totalDecodedBytes := value }
  | .lastMsgTimestamp, value => { status with lastMsgTimestamp := value }
  | .totalMissedPackets, value => { status with totalMissedPackets := value }

@[simp] theorem get_set (status : PGMReceiveStatus) (counter : Counter) (value : counter.Value) :
    (status.set counter value).get counter = value := by
  cases counter <;> rfl

@[simp] theorem get_set_of_ne (status : PGMReceiveStatus) {counter other : Counter}
    (ne : other ≠ counter) (value : counter.Value) :
    (status.set counter value).get other = status.get other := by
  cases counter <;> cases other <;> first | rfl | exact absurd rfl ne

end PGMReceiveStatus

/-- `status_` -/
def Forwarder.status {τ : Type} (forwarder : Forwarder τ) : PGMReceiveStatus where
  totalReceivedBytes := forwarder.receiver.totalReceivedBytes
  totalReceivedMsgs := forwarder.totalReceivedMsgs
  totalDecodedBytes := forwarder.totalDecodedBytes
  lastMsgTimestamp := forwarder.receiver.lastMsgTimestamp
  totalMissedPackets := forwarder.receiver.totalMissedPackets

/-- The stores of `TimerEvent`, in order. -/
def storesOfTimerEvent : List Counter :=
  [.totalReceivedBytes, .totalReceivedMsgs, .totalDecodedBytes, .lastMsgTimestamp,
    .totalMissedPackets]

/-- The loads of `ReportStatus`, in order. -/
def loadsOfReportStatus : List Counter :=
  [.totalMissedPackets, .totalReceivedBytes, .totalReceivedMsgs, .totalDecodedBytes,
    .lastMsgTimestamp]

/-- What `AtomicStatus` is constructed with: `total_missed_packets` is left indeterminate. -/
def AtomicStatus.initial (indeterminate : UInt64) : PGMReceiveStatus :=
  { totalMissedPackets := indeterminate }

/-- A receiver, its atomic counters and the threads that ask for them. -/
structure Reporting (τ ρ : Type) where
  /-- What the I/O thread uses, `status_` included. -/
  forwarder : Forwarder τ
  /-- The stores that `TimerEvent` has still to make; none when it is not called. -/
  storing : List Counter
  /-- `atomic_status_` -/
  atomicStatus : RelaxedAtomics Counter Counter.Value ρ
  /-- The argument of the last `ReportStatus` of each thread. -/
  status : ρ → PGMReceiveStatus
  /-- The loads that this has still to make; none when it has returned. -/
  loading : ρ → List Counter

/-- What a thread does next. -/
inductive ReportingAction (τ ρ : Type) where
  /-- `InEvent` works off a datagram. -/
  | datagram (tsi : τ) (bytes : List UInt8) (timestamp : Int64)
  /-- `TimerEvent` is called for the status timer. -/
  | timerEvent
  /-- It makes its next store. -/
  | store
  /-- `ReportStatus` is called. -/
  | reportStatus (reader : ρ) (status : PGMReceiveStatus)
  /-- It makes its next load, which gives the value at this place. -/
  | load (reader : ρ) (place : Nat)

/-- What is seen of it. -/
inductive ReportingLabel (τ ρ : Type) where
  /-- A datagram was worked off. -/
  | datagram (arrival : (τ × List UInt8) × Int64)
  /-- `ReportStatus` has returned. -/
  | report (reader : ρ) (status : PGMReceiveStatus)

/-- One more datagram is worked off after some others. -/
theorem Forwarder.inEvent_concat {τ : Type} [DecidableEq τ] {options : ForwarderOptions}
    {front : List ((τ × List UInt8) × Int64)} {forwarder next last : Forwarder τ} {tsi : τ}
    {bytes : List UInt8} {timestamp : Int64}
    (before : forwarder.inEvent options (ReceiverEngine.receptionsOf front) = some next)
    (packet : next.packet options tsi bytes timestamp = some last) :
    forwarder.inEvent options (ReceiverEngine.receptionsOf (front ++ [((tsi, bytes), timestamp)])) =
      some last := by
  induction front generalizing forwarder with
  | nil =>
      obtain rfl := Option.some_inj.mp before
      simp [ReceiverEngine.receptionsOf, inEvent, packet]
  | cons arrival front ih =>
      obtain ⟨middle, first, rest⟩ := Option.bind_eq_some_iff.mp before
      exact Option.bind_eq_some_iff.mpr ⟨middle, first, ih rest⟩

namespace Reporting

variable {τ ρ : Type} [DecidableEq τ] [DecidableEq ρ] (options : ForwarderOptions)
  (reporting : Reporting τ ρ)

omit [DecidableEq τ] [DecidableEq ρ] in
/-- A receiver that has been constructed, and threads with statuses of their own. -/
def init (indeterminate : UInt64) (status : ρ → PGMReceiveStatus) : Reporting τ ρ where
  forwarder := .init
  storing := []
  atomicStatus := .init (AtomicStatus.initial indeterminate).get
  status := status
  loading _ := []

/-- What an action leads to; there is no result if it is not up, or an assertion fails. -/
def exec : ReportingAction τ ρ → Option (Option (ReportingLabel τ ρ) × Reporting τ ρ)
  | .datagram tsi bytes timestamp =>
      if reporting.storing = [] then
        (reporting.forwarder.packet options tsi bytes timestamp).map fun forwarder =>
          (some (.datagram ((tsi, bytes), timestamp)), { reporting with forwarder := forwarder })
      else none
  | .timerEvent =>
      if reporting.storing = [] then
        some (none, { reporting with storing := storesOfTimerEvent })
      else none
  | .store =>
      match reporting.storing with
      | [] => none
      | counter :: rest =>
          some (none,
            { reporting with
              storing := rest
              atomicStatus := reporting.atomicStatus.store counter
                (reporting.forwarder.status.get counter) })
  | .reportStatus reader status =>
      if reporting.loading reader = [] then
        some (none,
          { reporting with
            status := Function.update reporting.status reader status
            loading := Function.update reporting.loading reader loadsOfReportStatus })
      else none
  | .load reader place =>
      match reporting.loading reader with
      | [] => none
      | counter :: rest =>
          (reporting.atomicStatus.load reader counter place).map fun (value, atomics) =>
            let status := (reporting.status reader).set counter value
            (if rest = [] then some (.report reader status) else none,
              { reporting with
                atomicStatus := atomics
                status := Function.update reporting.status reader status
                loading := Function.update reporting.loading reader rest })

/-- Some thread does something. -/
def Step (reporting : Reporting τ ρ) (label : Option (ReportingLabel τ ρ))
    (next : Reporting τ ρ) : Prop :=
  ∃ action, reporting.exec options action = some (label, next)

omit [DecidableEq τ] [DecidableEq ρ] in
/-- The datagrams that were worked off. -/
def arrivals (trace : List (ReportingLabel τ ρ)) : List ((τ × List UInt8) × Int64) :=
  trace.filterMap fun
    | .datagram arrival => some arrival
    | .report .. => none

omit [DecidableEq τ] in
/-- The reports that a thread has got. -/
def reports (reader : ρ) (trace : List (ReportingLabel τ ρ)) : List PGMReceiveStatus :=
  trace.filterMap fun
    | .datagram _ => none
    | .report other status => if other = reader then some status else none

/-- A counter as it is at first, or once so many of the datagrams were worked off. -/
def Shows (indeterminate : UInt64) (arrivals : List ((τ × List UInt8) × Int64))
    (counter : Counter) (moment : WithBot Nat) (value : counter.Value) : Prop :=
  moment = ⊥ ∧ value = (AtomicStatus.initial indeterminate).get counter ∨
    ∃ (count : Nat) (forwarder : Forwarder τ), moment = count ∧ count ≤ arrivals.length ∧
      Forwarder.init.inEvent options (ReceiverEngine.receptionsOf (arrivals.take count)) =
        some forwarder ∧
      value = forwarder.status.get counter

variable {options} {reporting} {indeterminate : UInt64} {next : Reporting τ ρ} {reader : ρ}
  {counter : Counter} {trace : List (ReportingLabel τ ρ)}

omit [DecidableEq ρ] in
/-- More datagrams make no difference to how a counter was. -/
theorem Shows.more {earlier : List ((τ × List UInt8) × Int64)} {moment : WithBot Nat}
    {value : counter.Value} (shows : Shows options indeterminate earlier counter moment value)
    (later : List ((τ × List UInt8) × Int64)) :
    Shows options indeterminate (earlier ++ later) counter moment value := by
  refine shows.imp_right ?_
  rintro ⟨count, forwarder, rfl, within, ran, same⟩
  refine ⟨count, forwarder, rfl, ?_, ?_, same⟩
  · rw [List.length_append]
    exact Nat.le_add_right_of_le within
  · rwa [List.take_append_of_le_length within]

omit [DecidableEq ρ] in
theorem Shows.le {earlier : List ((τ × List UInt8) × Int64)} {moment : WithBot Nat}
    {value : counter.Value} (shows : Shows options indeterminate earlier counter moment value) :
    moment ≤ earlier.length := by
  rcases shows with ⟨rfl, -⟩ | ⟨count, _, rfl, within, -⟩
  · exact bot_le
  · exact WithBot.coe_le_coe.mpr within

omit [DecidableEq ρ] in
theorem Shows.forall_le {earlier : List ((τ × List UInt8) × Int64)} {moments : List (WithBot Nat)}
    {values : List counter.Value}
    (told : List.Forall₂ (Shows options indeterminate earlier counter) moments values) :
    ∀ moment ∈ moments, moment ≤ earlier.length := by
  induction told with
  | nil => simp
  | cons shows _ ih => exact List.forall_mem_cons.mpr ⟨shows.le, ih⟩

/-- What holds in every run. -/
structure Holds (options : ForwarderOptions) (indeterminate : UInt64)
    (trace : List (ReportingLabel τ ρ)) (reporting : Reporting τ ρ) : Prop where
  worked : Forwarder.init.inEvent options (ReceiverEngine.receptionsOf (arrivals trace)) =
    some reporting.forwarder
  stored : ∀ counter, ∃ moments : List (WithBot Nat), moments.Pairwise (· ≤ ·) ∧
    List.Forall₂ (Shows options indeterminate (arrivals trace) counter) moments
      (reporting.atomicStatus.stored counter)
  reported : ∀ reader counter, RelaxedAtomics.Forward (reporting.atomicStatus.stored counter)
    (reporting.atomicStatus.seen reader counter)
    ((reports reader trace).map fun status => status.get counter)
  loaded : ∀ reader, reporting.loading reader ≠ [] → ∀ counter, counter ∉ reporting.loading reader →
    (reporting.atomicStatus.stored counter)[reporting.atomicStatus.seen reader counter]? =
      some ((reporting.status reader).get counter)

theorem holds_init (options : ForwarderOptions) (indeterminate : UInt64)
    (status : ρ → PGMReceiveStatus) :
    Holds options indeterminate [] (init indeterminate status : Reporting τ ρ) where
  worked := rfl
  stored _ := ⟨[⊥], List.pairwise_singleton .., .cons (Or.inl ⟨rfl, rfl⟩) .nil⟩
  reported _ _ := .nil
  loaded _ asked := absurd rfl asked

theorem Holds.datagram (holds : Holds options indeterminate trace reporting) {tsi : τ}
    {bytes : List UInt8} {timestamp : Int64} {forwarder : Forwarder τ}
    (packet : reporting.forwarder.packet options tsi bytes timestamp = some forwarder) :
    Holds options indeterminate (trace ++ [.datagram ((tsi, bytes), timestamp)])
      { reporting with forwarder := forwarder } := by
  have more : arrivals (trace ++ [.datagram ((tsi, bytes), timestamp)]) =
      arrivals trace ++ [((tsi, bytes), timestamp)] := by
    simp [arrivals]
  refine ⟨?_, fun counter => ?_, fun reader counter => ?_, holds.loaded⟩
  · rw [more]
    exact Forwarder.inEvent_concat holds.worked packet
  · obtain ⟨moments, sorted, told⟩ := holds.stored counter
    rw [more]
    exact ⟨moments, sorted, told.imp fun _ _ shows => shows.more _⟩
  · have same : reports reader (trace ++ [.datagram ((tsi, bytes), timestamp)]) =
        reports reader trace := by
      simp [reports]
    rw [same]
    exact holds.reported reader counter

theorem Holds.store (holds : Holds options indeterminate trace reporting) {rest : List Counter} :
    Holds options indeterminate trace
      { reporting with
        storing := rest
        atomicStatus := reporting.atomicStatus.store counter
          (reporting.forwarder.status.get counter) } where
  worked := holds.worked
  stored other := by
    obtain ⟨moments, sorted, told⟩ := holds.stored other
    by_cases same : other = counter
    · subst same
      dsimp only
      rw [RelaxedAtomics.stored_store]
      refine ⟨moments ++ [((arrivals trace).length : WithBot Nat)], ?_,
        List.rel_append told (.cons (Or.inr ⟨_, _, rfl, le_rfl, ?_, rfl⟩) .nil)⟩
      · refine List.pairwise_append.mpr ⟨sorted, List.pairwise_singleton .., ?_⟩
        rintro moment member _ (_ | ⟨_, ⟨⟩⟩)
        exact Shows.forall_le told moment member
      · rw [List.take_length]
        exact holds.worked
    · dsimp only
      rw [RelaxedAtomics.stored_store_of_ne _ same]
      exact ⟨moments, sorted, told⟩
  reported reader other :=
    (holds.reported reader other).mono (RelaxedAtomics.stored_prefix_store _ other) le_rfl
  loaded reader asked other done :=
    RelaxedAtomics.getElem?_of_more (RelaxedAtomics.stored_prefix_store _ other)
      (holds.loaded reader asked other done)

theorem Holds.reportStatus (holds : Holds options indeterminate trace reporting)
    (status : PGMReceiveStatus) :
    Holds options indeterminate trace
      { reporting with
        status := Function.update reporting.status reader status
        loading := Function.update reporting.loading reader loadsOfReportStatus } where
  worked := holds.worked
  stored := holds.stored
  reported := holds.reported
  loaded other asked counter done := by
    dsimp only at asked done ⊢
    by_cases same : other = reader
    · subst same
      rw [Function.update_self] at done
      cases counter <;> exact absurd (by decide) done
    · rw [Function.update_of_ne same] at done asked
      rw [Function.update_of_ne same]
      exact holds.loaded other asked counter done

/-- A call of `ReportStatus` makes its next load; with the last one it returns. -/
theorem Holds.load (holds : Holds options indeterminate trace reporting) {rest : List Counter}
    (loading : reporting.loading reader = counter :: rest) {place : Nat} {value : counter.Value}
    {atomics : RelaxedAtomics Counter Counter.Value ρ}
    (loaded : reporting.atomicStatus.load reader counter place = some (value, atomics)) :
    let status := (reporting.status reader).set counter value
    Holds options indeterminate
      (if rest = [] then trace ++ [.report reader status] else trace)
      { reporting with
        atomicStatus := atomics
        status := Function.update reporting.status reader status
        loading := Function.update reporting.loading reader rest } := by
  intro status
  have worked : arrivals (if rest = [] then trace ++ [.report reader status] else trace) =
      arrivals trace := by
    split <;> simp [arrivals]
  have now : ∀ other, other ∉ rest →
      (reporting.atomicStatus.stored other)[atomics.seen reader other]? =
        some (status.get other) := by
    intro other done
    by_cases same : other = counter
    · subst same
      rw [RelaxedAtomics.getElem?_seen_of_load loaded, PGMReceiveStatus.get_set]
    · rw [RelaxedAtomics.seen_of_load_of_ne loaded same, PGMReceiveStatus.get_set_of_ne _ same]
      refine holds.loaded reader (loading ▸ List.cons_ne_nil _ _) other ?_
      rw [loading]
      exact fun member => (List.mem_cons.mp member).elim same done
  refine ⟨worked ▸ holds.worked, fun other => ?_, fun thread other => ?_,
    fun thread asked other done => ?_⟩
  · rw [worked, RelaxedAtomics.stored_of_load loaded]
    exact holds.stored other
  · dsimp only
    rw [RelaxedAtomics.stored_of_load loaded]
    by_cases same : thread = reader
    · subst same
      have before := (holds.reported thread other).mono List.prefix_rfl
        (RelaxedAtomics.seen_le_of_load loaded other)
      split
      · rename_i last
        have told : reports thread (trace ++ [.report thread status]) =
            reports thread trace ++ [status] := by
          simp [reports]
        rw [told, List.map_append]
        exact before.concat le_rfl (now other (by simp [last]))
      · exact before
    · have told : reports thread (if rest = [] then trace ++ [.report reader status] else trace) =
          reports thread trace := by
        split <;> simp [reports, Ne.symm same]
      rw [told, RelaxedAtomics.seen_of_load_of_other loaded same]
      exact holds.reported thread other
  · dsimp only at asked done ⊢
    rw [RelaxedAtomics.stored_of_load loaded]
    by_cases same : thread = reader
    · subst same
      rw [Function.update_self] at done
      rw [Function.update_self]
      exact now other done
    · rw [Function.update_of_ne same] at asked done
      rw [Function.update_of_ne same, RelaxedAtomics.seen_of_load_of_other loaded same]
      exact holds.loaded thread asked other done

theorem Holds.step (holds : Holds options indeterminate trace reporting)
    {label : Option (ReportingLabel τ ρ)} (step : Step options reporting label next) :
    Holds options indeterminate (trace ++ label.toList) next := by
  obtain ⟨action, done⟩ := step
  cases action with
  | datagram tsi bytes timestamp =>
      rw [exec] at done
      split at done
      · obtain ⟨forwarder, packet, same⟩ := Option.map_eq_some_iff.mp done
        obtain ⟨rfl, rfl⟩ := Prod.mk.inj same
        exact holds.datagram packet
      · cases done
  | timerEvent =>
      rw [exec] at done
      split at done
      · obtain ⟨rfl, rfl⟩ := Prod.mk.inj (Option.some_inj.mp done)
        rw [Option.toList_none, List.append_nil]
        exact ⟨holds.worked, holds.stored, holds.reported, holds.loaded⟩
      · cases done
  | store =>
      rw [exec] at done
      split at done
      · cases done
      · obtain ⟨rfl, rfl⟩ := Prod.mk.inj (Option.some_inj.mp done)
        rw [Option.toList_none, List.append_nil]
        exact holds.store
  | reportStatus reader status =>
      rw [exec] at done
      split at done
      · obtain ⟨rfl, rfl⟩ := Prod.mk.inj (Option.some_inj.mp done)
        rw [Option.toList_none, List.append_nil]
        exact holds.reportStatus status
      · cases done
  | load reader place =>
      rw [exec] at done
      split at done
      · cases done
      · rename_i counter rest loading
        obtain ⟨⟨value, atomics⟩, loaded, same⟩ := Option.map_eq_some_iff.mp done
        obtain ⟨rfl, rfl⟩ := Prod.mk.inj same
        have kept := holds.load loading loaded
        dsimp only at kept ⊢
        split at kept
        · rename_i last
          simpa [last] using kept
        · rename_i more
          simpa [more] using kept

theorem Holds.run {status : ρ → PGMReceiveStatus}
    (run : Run (Step options) (init indeterminate status) trace reporting) :
    Holds options indeterminate trace reporting := by
  induction run with
  | nil => exact holds_init options indeterminate status
  | silent _ step ih => simpa using ih.step step
  | visible _ step ih => simpa using ih.step step

/-- A report between two stores of `TimerEvent`: the received bytes are new, the rest is old. -/
theorem run_mixed : ∃ (trace : List (ReportingLabel Nat Nat)) (reporting : Reporting Nat Nat),
    Run (Step twoBytesEach) (init 9 fun _ => {}) trace reporting ∧
      (arrivals trace).length = 1 ∧ reports 0 trace = [⟨8, 0, 0, 0, 9⟩] := by
  have worked : Run (Step twoBytesEach) (init 9 fun _ => {} : Reporting Nat Nat) _ _ :=
    Run.nil.visible ⟨.datagram 5 [0, 0, 7, 0, 0, 0, 1, 2] 3, rfl⟩
  have stored : Run (Step twoBytesEach) (init 9 fun _ => {} : Reporting Nat Nat) _ _ :=
    (worked.silent ⟨.timerEvent, rfl⟩).silent ⟨.store, rfl⟩
  have asked : Run (Step twoBytesEach) (init 9 fun _ => {} : Reporting Nat Nat) _ _ :=
    ((stored.silent ⟨.reportStatus 0 {}, rfl⟩).silent ⟨.load 0 0, rfl⟩).silent ⟨.load 0 1, rfl⟩
  exact ⟨_, _, ((asked.silent ⟨.load 0 0, rfl⟩).silent ⟨.load 0 0, rfl⟩).visible
    ⟨.load 0 0, rfl⟩, rfl, rfl⟩

/-! ## Results -/

/-- Of each counter by itself the reports that a thread gets go forward: each tells the counter as
it was at first or after some first part of the datagrams, and none goes back behind the one before
it. -/
theorem reports_go_forward {status : ρ → PGMReceiveStatus}
    (run : Run (Step options) (init indeterminate status) trace reporting) (reader : ρ)
    (counter : Counter) :
    ∃ moments : List (WithBot Nat), moments.Pairwise (· ≤ ·) ∧
      List.Forall₂ (Shows options indeterminate (arrivals trace) counter) moments
        ((reports reader trace).map fun status => status.get counter) := by
  have holds := Holds.run run
  obtain ⟨moments, sorted, told⟩ := holds.stored counter
  exact (holds.reported reader counter).along sorted told

/-- The one report of this run tells the received bytes after the datagram, and the missed packets
as they were constructed. -/
theorem reports_go_forward_mixed : ∃ (trace : List (ReportingLabel Nat Nat))
    (moments : List (WithBot Nat)), (arrivals trace).length = 1 ∧
      reports 0 trace = [⟨8, 0, 0, 0, 9⟩] ∧ moments.Pairwise (· ≤ ·) ∧
      List.Forall₂ (Shows twoBytesEach 9 (arrivals trace) .totalReceivedBytes) moments
        [(8 : UInt64)] := by
  obtain ⟨trace, reporting, run, one, reported⟩ := run_mixed
  obtain ⟨moments, sorted, told⟩ := reports_go_forward run 0 .totalReceivedBytes
  rw [reported] at told
  exact ⟨trace, moments, one, reported, sorted, told⟩

end Reporting

end FlashForwarder
