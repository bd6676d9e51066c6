import FlashForwarder.Library.Transition
import FlashForwarder.Monitor.StatusTable
import Mathlib.Data.List.Nodup
import Mathlib.Logic.Function.Basic

/-!
# What the alarm forgets

A host comes and goes between being unknown, running and failing.  The table shows which it is, and
the counter how many fail, as long as no status leaves a host recorded without a row or names a
market as abnormal rows are named.  A status without a market does leave its host so, if that was
failing.
-/

namespace FlashForwarder

open Transition

namespace Monitor

variable (monitor : Monitor)

/-! ## What the alarm is to do -/

/-- The last two reports about a host are failures. -/
def FailedTwice (reports : List Report) (pk : List Char) : Prop :=
  ∃ earlier first last, reports.filter (·.host.pk = pk) =
    earlier ++ [Report.failure first, Report.failure last]

/-- The counter is the number of abnormal rows; a host has at most one, and it has one if it has
failed twice. -/
structure Accurate (reports : List Report) (monitor : Monitor) : Prop where
  counted : monitor.errorCounter = monitor.resultData.countP Row.isAbnormal
  single : ∀ host : Host,
    monitor.resultData.countP (fun row => row.isAbnormal && decide (row.pk = host.pk)) ≤ 1
  remembered : ∀ host : Host, FailedTwice reports host.pk →
    ∃ row ∈ monitor.resultData, row.pk = host.pk ∧ row.isAbnormal = true

/-- The host has an abnormal row. -/
def Failing (pk : List Char) : Prop :=
  ∃ row ∈ monitor.resultData, row.pk = pk ∧ row.isAbnormal = true

/-- A status takes the row of a host over: it has an entry with the row's primary key. -/
def Takes (host : Host) (data : List Entry) (row : Row) : Prop :=
  row.pk ≠ host.pk ∧ ∃ entry ∈ data, row.moreBazaar = host.pk ++ '_' :: entry.keyname

instance (host : Host) (data : List Entry) (row : Row) : Decidable (Takes host data row) :=
  inferInstanceAs (Decidable (row.pk ≠ host.pk ∧ ∃ entry ∈ data,
    row.moreBazaar = host.pk ++ '_' :: entry.keyname))

/-- A report that the table can take, be it that `ComSameStatusData` or `ComStatusData` is called
for a status.  What it adds to the table is not called as an abnormal row is; it adds something if
it removes the row of its host, and takes over no host's last row. -/
def Acceptable (monitor : Monitor) : Report → Prop
  | .failure _ => True
  | .success host data =>
      (host.pk ∈ monitor.recordPk → ¬monitor.Failing host.pk →
        (∀ row ∈ monitor.resultData, ∃ kept ∈ monitor.resultData,
          kept.pk = row.pk ∧ ¬Takes host data kept) ∧
        ∀ row ∈ monitor.resultData, row.moreBazaar ≠ host.pk ++ '_' :: abnormal ∨
          ∀ entry ∈ data, entry.keyname ≠ abnormal) ∧
      ((host.pk ∈ monitor.recordPk → monitor.Failing host.pk) →
        (∀ entry ∈ data, entry.isMarket = true → entry.keyname ≠ abnormal) ∧
          (host.pk ∈ monitor.recordPk → ∃ entry ∈ data, entry.isMarket = true))

/-! ## What a host goes through -/

/-- What the page knows of a host. -/
inductive Status where
  /-- Nothing. -/
  | unknown
  /-- Its markets. -/
  | running
  /-- That it does not answer. -/
  | failing

namespace Status

/-- What the page knows after a report about the host. -/
def next : Status → Report → Status
  | .unknown, .success _ data => if data.any (·.isMarket) then .running else .unknown
  | _, .success _ _ => .running
  | .running, .failure _ => .unknown
  | _, .failure _ => .failing

/-- Whether the host is recorded, and which rows are its own. -/
def Shown (recorded : Prop) (rows : List Row) : Status → Prop
  | .unknown => ¬recorded ∧ rows = []
  | .running => recorded ∧ rows ≠ [] ∧ ∀ row ∈ rows, row.isAbnormal = false
  | .failing => recorded ∧ ∃ row, rows = [row] ∧ row.isAbnormal = true

theorem Shown.countP_le_one {recorded : Prop} {rows : List Row} {status : Status}
    (shown : status.Shown recorded rows) : rows.countP Row.isAbnormal ≤ 1 := by
  cases status with
  | unknown =>
      rw [shown.2]
      exact Nat.zero_le 1
  | running =>
      have none : rows.countP Row.isAbnormal = 0 :=
        List.countP_eq_zero.mpr fun row member => by simp [shown.2.2 row member]
      rw [none]
      exact Nat.zero_le 1
  | failing =>
      obtain ⟨-, row, rfl, -⟩ := shown
      exact List.countP_le_length

/-- Whatever is known of a host, it is failing once it has failed twice. -/
theorem next_failure_failure (status : Status) (first last : Host) :
    (status.next (.failure first)).next (.failure last) = .failing := by
  cases status <;> rfl

end Status

/-- What the reports tell about a host. -/
def statusAfter (reports : List Report) (pk : List Char) : Status :=
  (reports.filter (·.host.pk = pk)).foldl Status.next .unknown

theorem statusAfter_concat (reports : List Report) (report : Report) :
    statusAfter (reports ++ [report]) = Function.update (statusAfter reports) report.host.pk
      ((statusAfter reports report.host.pk).next report) := by
  funext pk
  rw [statusAfter, List.filter_append, List.foldl_append]
  by_cases same : report.host.pk = pk
  · subst same
    rw [Function.update_self]
    simp [statusAfter]
  · rw [Function.update_of_ne (Ne.symm same)]
    simp [statusAfter, same]

theorem FailedTwice.statusAfter {reports : List Report} {pk : List Char}
    (failed : FailedTwice reports pk) : statusAfter reports pk = .failing := by
  obtain ⟨earlier, first, last, split⟩ := failed
  rw [Monitor.statusAfter, split, List.foldl_append]
  exact Status.next_failure_failure _ first last

variable {monitor : Monitor} {pk : List Char} {rows : List Row} {host : Host}

/-! ## The table keeps in step -/

/-- The table shows what is known of every host, and the counter counts those that fail. -/
structure Represents (monitor : Monitor) (status : List Char → Status) : Prop where
  shown : ∀ pk, (status pk).Shown (pk ∈ monitor.recordPk) (rowsOf pk monitor.resultData)
  formed : ∀ row ∈ monitor.resultData, Formed row
  nodup : monitor.recordPk.Nodup
  counted : monitor.errorCounter = monitor.resultData.countP Row.isAbnormal

variable {status : List Char → Status}

theorem represents_init : init.Represents (statusAfter []) where
  shown _ := ⟨List.not_mem_nil, rfl⟩
  formed _ member := absurd member List.not_mem_nil
  nodup := List.nodup_nil
  counted := rfl

theorem shown_update {next : Monitor} {pk : List Char} {after : Status}
    (own : after.Shown (pk ∈ next.recordPk) (rowsOf pk next.resultData))
    (others : ∀ other, other ≠ pk →
      (status other).Shown (other ∈ next.recordPk) (rowsOf other next.resultData))
    (other : List Char) : (Function.update status pk after other).Shown (other ∈ next.recordPk)
      (rowsOf other next.resultData) := by
  by_cases same : other = pk
  · subst same
    rwa [Function.update_self]
  · rw [Function.update_of_ne same]
    exact others other same

theorem nodup_record {recordPk : List (List Char)} (nodup : recordPk.Nodup)
    (unrecorded : pk ∉ recordPk) : (recordPk ++ [pk]).Nodup := by
  rw [← List.concat_eq_append]
  exact List.Nodup.concat unrecorded nodup

/-- A row tells what is known of its host; an abnormal one is the only one that its host has. -/
theorem Represents.of_mem (represents : monitor.Represents status) {row : Row}
    (member : row ∈ monitor.resultData) : row.pk ∈ monitor.recordPk ∧
      (status row.pk = .running ∧ row.isAbnormal = false ∨
        status row.pk = .failing ∧ rowsOf row.pk monitor.resultData = [row]) := by
  have own := mem_rowsOf.mpr ⟨member, rfl⟩
  have shown := represents.shown row.pk
  cases known : status row.pk with
  | unknown =>
      rw [known] at shown
      rw [shown.2] at own
      exact absurd own List.not_mem_nil
  | running =>
      rw [known] at shown
      exact ⟨shown.1, Or.inl ⟨rfl, shown.2.2 row own⟩⟩
  | failing =>
      rw [known] at shown
      obtain ⟨recorded, only, single, -⟩ := shown
      rw [single, List.mem_singleton] at own
      exact ⟨recorded, Or.inr ⟨rfl, own ▸ single⟩⟩

theorem Represents.failing_iff (represents : monitor.Represents status) (pk : List Char) :
    monitor.Failing pk ↔ status pk = .failing := by
  constructor
  · rintro ⟨row, member, rfl, marked⟩
    obtain ⟨-, ⟨-, normal⟩ | ⟨failing, -⟩⟩ := represents.of_mem member
    · rw [normal] at marked
      cases marked
    · exact failing
  · intro known
    have shown := represents.shown pk
    rw [known] at shown
    obtain ⟨-, row, single, marked⟩ := shown
    obtain ⟨member, own⟩ := mem_rowsOf.mp (single ▸ List.mem_singleton_self row)
    exact ⟨row, member, own, marked⟩

/-- `isError` leaves the rows of a running host alone. -/
theorem Represents.isError_of_running (represents : monitor.Represents status)
    (running : status pk = .running) : monitor.isError pk = (monitor, false) := by
  have shown := represents.shown pk
  rw [running] at shown
  rw [isError, if_pos shown.1, isErrorLoop_of_normal shown.2.2]

theorem Represents.isError_of_failing (represents : monitor.Represents status)
    (failing : status pk = .failing) : monitor.isError pk =
      ({ monitor with resultData := without pk monitor.resultData }, true) := by
  have shown := represents.shown pk
  rw [failing] at shown
  obtain ⟨recorded, row, single, marked⟩ := shown
  rw [isError, if_pos recorded, isErrorLoop_of_single single marked]

theorem Represents.counted_without (represents : monitor.Represents status)
    (failing : status pk = .failing) : monitor.errorCounter =
      (without pk monitor.resultData).countP Row.isAbnormal + 1 := by
  have shown := represents.shown pk
  rw [failing] at shown
  obtain ⟨-, row, single, marked⟩ := shown
  have one : (rowsOf pk monitor.resultData).countP Row.isAbnormal = 1 := by
    rw [single, List.countP_cons, List.countP_nil, if_pos marked]
  rw [represents.counted, countP_without pk, one]
  omega

/-! ### Failures -/

theorem Represents.failure (represents : monitor.Represents status) (host : Host) :
    (monitor.exec (.failure host)).Represents
      (Function.update status host.pk ((status host.pk).next (.failure host))) := by
  obtain ⟨shown, formed, nodup, counted⟩ := represents
  have own := shown host.pk
  cases known : status host.pk with
  | unknown =>
      rw [known] at own
      obtain ⟨unrecorded, empty⟩ := own
      rw [exec, if_neg unrecorded]
      refine ⟨shown_update ?_ fun other ne => ?_, ?_, ?_, ?_⟩
      · refine ⟨List.mem_append_right _ (List.mem_singleton_self _), host.errorRow, ?_, ?_⟩
        · rw [rowsOf_append, empty]
          exact rowsOf_eq_self fun row member => by rw [List.mem_singleton.mp member]; rfl
        · exact decide_eq_true rfl
      · have foreign : rowsOf other [host.errorRow] = [] :=
          rowsOf_eq_nil fun row member => by rw [List.mem_singleton.mp member]; exact ne.symm
        simpa only [rowsOf_append, foreign, List.append_nil, List.mem_append, List.mem_singleton,
          ne, or_false] using shown other
      · intro row member
        rcases List.mem_append.mp member with old | new
        · exact formed row old
        · rw [List.mem_singleton.mp new]
          exact formed_errorRow host
      · exact nodup_record nodup unrecorded
      · have one : [host.errorRow].countP Row.isAbnormal = 1 := rfl
        rw [List.countP_append, one, counted]
        rfl
  | failing =>
      rw [known] at own
      obtain ⟨recorded, row, single, marked⟩ := own
      rw [exec, if_pos recorded, deleteGrid_of_abnormal formed]
      · have unchanged : Function.update status host.pk .failing = status := by
          rw [← known, Function.update_eq_self]
        rw [show Status.next .failing (.failure host) = .failing from rfl, unchanged]
        exact ⟨shown, formed, nodup, counted⟩
      · rw [single]
        simpa using marked
  | running =>
      rw [known] at own
      obtain ⟨recorded, some_row, normal⟩ := own
      rw [exec, if_pos recorded, deleteGrid_of_normal formed recorded some_row normal]
      refine ⟨shown_update ?_ fun other ne => ?_, ?_, ?_, ?_⟩
      · exact ⟨nodup.not_mem_erase, rowsOf_without _ _⟩
      · simpa only [rowsOf_without_of_ne ne, List.mem_erase_of_ne ne] using shown other
      · intro row member
        exact formed row (List.mem_filter.mp member).1
      · exact nodup.erase host.pk
      · have none : (rowsOf host.pk monitor.resultData).countP Row.isAbnormal = 0 :=
          List.countP_eq_zero.mpr fun row member => by simp [normal row member]
        rw [counted, countP_without host.pk, none, Nat.zero_add]

/-! ### Successes -/

/-- What `ComStatusData` makes of a table that has no row of the host. -/
theorem represents_comStatusData {data : List Entry}
    (named : ∀ entry ∈ data, entry.isMarket = true → entry.keyname ≠ abnormal)
    (empty : rowsOf host.pk monitor.resultData = [])
    (listed : host.pk ∈ monitor.recordPk → data.any (·.isMarket) = true)
    (others : ∀ other, other ≠ host.pk →
      (status other).Shown (other ∈ monitor.recordPk) (rowsOf other monitor.resultData))
    (formed : ∀ row ∈ monitor.resultData, Formed row) (nodup : monitor.recordPk.Nodup)
    (counted : monitor.errorCounter = monitor.resultData.countP Row.isAbnormal) :
    (monitor.comStatusData host data).Represents
      (Function.update status host.pk (Status.next .unknown (.success host data))) := by
  have normal : ∀ row ∈ marketRows host data, row.isAbnormal = false := by
    intro row member
    obtain ⟨entry, found, market, rfl⟩ := mem_marketRows.mp member
    exact isAbnormal_row (named entry found market) host
  rw [comStatusData_eq]
  refine ⟨shown_update ?_ fun other ne => ?_, ?_, ?_, ?_⟩
  · have own : rowsOf host.pk (monitor.resultData ++ marketRows host data) =
        marketRows host data := by
      rw [rowsOf_append, empty, List.nil_append]
      exact rowsOf_eq_self fun row member => pk_of_mem_marketRows member
    rw [own, Status.next]
    cases market : data.any (·.isMarket) with
    | false =>
        have unrecorded : host.pk ∉ monitor.recordPk := fun recorded =>
          Bool.false_ne_true (market.symm.trans (listed recorded))
        refine ⟨by simpa using unrecorded, ?_⟩
        rw [marketRows, List.filter_eq_nil_iff.mpr, List.map_nil]
        exact fun entry member => by simpa using List.any_eq_false.mp market entry member
    | true =>
        obtain ⟨entry, found, is_market⟩ := List.any_eq_true.mp market
        refine ⟨?_, List.ne_nil_of_mem (mem_marketRows.mpr ⟨entry, found, is_market, rfl⟩), normal⟩
        by_cases recorded : host.pk ∈ monitor.recordPk
        · simp [recorded]
        · simp [recorded]
  · have foreign : rowsOf other (marketRows host data) = [] :=
      rowsOf_eq_nil fun row member => by rw [pk_of_mem_marketRows member]; exact ne.symm
    rw [rowsOf_append, foreign, List.append_nil]
    have same : (other ∈ if host.pk ∈ monitor.recordPk ∨ data.any (·.isMarket) = false then
        monitor.recordPk else monitor.recordPk ++ [host.pk]) ↔ other ∈ monitor.recordPk := by
      split
      · exact Iff.rfl
      · simp [ne]
    rw [same]
    exact others other ne
  · intro row member
    rcases List.mem_append.mp member with old | new
    · exact formed row old
    · obtain ⟨entry, found, market, rfl⟩ := mem_marketRows.mp new
      exact formed_row (named entry found market) host
  · dsimp only
    split
    · exact nodup
    · rename_i unrecorded
      exact nodup_record nodup fun recorded => unrecorded (Or.inl recorded)
  · have none : (marketRows host data).countP Row.isAbnormal = 0 :=
      List.countP_eq_zero.mpr fun row member => by simp [normal row member]
    rw [List.countP_append, none, Nat.add_zero]
    exact counted

/-- Another host loses the rows that are taken over. -/
theorem rowsOf_refreshed {other : List Char} (ne : other ≠ host.pk) (data : List Entry)
    (rows : List Row) : rowsOf other (rows.map (refreshed host data)) =
      (rowsOf other rows).filter fun row => ¬Takes host data row := by
  induction rows with
  | nil => rfl
  | cons row rows ih =>
      rw [List.map_cons, rowsOf, rowsOf, List.filter_cons, List.filter_cons]
      rcases refreshed_cases host data row with ⟨kept, unmatched⟩ | ⟨entry, member, key, taken⟩
      · have free : ¬Takes host data row := fun takes => by
          obtain ⟨entry, member, key⟩ := takes.2
          exact unmatched entry member key
        rw [kept]
        split
        · rw [List.filter_cons_of_pos (by simpa using free)]
          exact congrArg _ ih
        · exact ih
      · have gone : (refreshed host data row).pk ≠ other := by rw [taken]; exact ne.symm
        rw [if_neg (by simpa using gone)]
        split
        · rename_i same
          have takes : Takes host data row :=
            ⟨fun own => ne ((of_decide_eq_true same).symm.trans own), entry, member, key⟩
          rw [List.filter_cons_of_neg (by simpa using takes)]
          exact ih
        · exact ih

theorem Represents.not_takes (represents : monitor.Represents status) {data : List Entry}
    (kept : ∀ row ∈ monitor.resultData, ∃ kept ∈ monitor.resultData,
      kept.pk = row.pk ∧ ¬Takes host data kept)
    {row : Row} (member : row ∈ monitor.resultData) (marked : row.isAbnormal = true) :
    ¬Takes host data row := by
  obtain ⟨-, ⟨-, normal⟩ | ⟨-, single⟩⟩ := represents.of_mem member
  · rw [normal] at marked
    cases marked
  · obtain ⟨other, found, same, free⟩ := kept row member
    have there : other ∈ rowsOf row.pk monitor.resultData := mem_rowsOf.mpr ⟨found, same⟩
    rw [single, List.mem_singleton] at there
    rwa [← there]

theorem Represents.shown_refreshed (represents : monitor.Represents status) {data : List Entry}
    (kept : ∀ row ∈ monitor.resultData, ∃ kept ∈ monitor.resultData,
      kept.pk = row.pk ∧ ¬Takes host data kept)
    {other : List Char} (ne : other ≠ host.pk) :
    (status other).Shown (other ∈ monitor.recordPk)
      (rowsOf other (monitor.resultData.map (refreshed host data))) := by
  have shown := represents.shown other
  rw [rowsOf_refreshed ne]
  cases known : status other with
  | unknown =>
      rw [known] at shown
      exact ⟨shown.1, by rw [shown.2]; rfl⟩
  | running =>
      rw [known] at shown
      obtain ⟨recorded, some_row, normal⟩ := shown
      obtain ⟨row, own⟩ := List.exists_mem_of_ne_nil _ some_row
      obtain ⟨member, same⟩ := mem_rowsOf.mp own
      obtain ⟨last, found, alike, free⟩ := kept row member
      refine ⟨recorded, List.ne_nil_of_mem (List.mem_filter.mpr ⟨?_, decide_eq_true free⟩), ?_⟩
      · exact mem_rowsOf.mpr ⟨found, alike.trans same⟩
      · exact fun row member => normal row (List.mem_filter.mp member).1
  | failing =>
      rw [known] at shown
      obtain ⟨recorded, row, single, marked⟩ := shown
      have own : row ∈ rowsOf other monitor.resultData := single ▸ List.mem_singleton_self row
      have free := represents.not_takes kept (mem_rowsOf.mp own).1 marked
      refine ⟨recorded, row, ?_, marked⟩
      rw [single]
      exact List.filter_cons_of_pos (decide_eq_true free)

theorem Represents.refresh (represents : monitor.Represents status) {data : List Entry}
    (running : status host.pk = .running)
    (kept : ∀ row ∈ monitor.resultData, ∃ kept ∈ monitor.resultData,
      kept.pk = row.pk ∧ ¬Takes host data kept)
    (named : ∀ row ∈ monitor.resultData, row.moreBazaar ≠ host.pk ++ '_' :: abnormal ∨
      ∀ entry ∈ data, entry.keyname ≠ abnormal) :
    (monitor.comSameStatusData host data).Represents status := by
  have own := represents.shown host.pk
  rw [running] at own
  obtain ⟨recorded, some_row, normal⟩ := own
  -- A row that is replaced was normal: an abnormal one is its host's last, and those are kept.
  have marks : ∀ row ∈ monitor.resultData,
      (refreshed host data row).isAbnormal = row.isAbnormal := by
    intro row member
    rcases refreshed_normal (named row member) with same | ⟨entry, found, name, key, taken⟩
    · rw [same]
    · rw [taken, isAbnormal_row name]
      by_cases mine : row.pk = host.pk
      · exact (normal row (mem_rowsOf.mpr ⟨member, mine⟩)).symm
      · by_contra differs
        have marked : row.isAbnormal = true := by simpa using differs
        exact represents.not_takes kept member marked ⟨mine, entry, found, key⟩
  have others := fun other (ne : other ≠ host.pk) => represents.shown_refreshed kept ne
  obtain ⟨-, formed, nodup, counted⟩ := represents
  rw [comSameStatusData_eq]
  refine ⟨fun other => ?_, ?_, nodup, ?_⟩
  · by_cases same : other = host.pk
    · subst same
      rw [running]
      obtain ⟨row, mine⟩ := List.exists_mem_of_ne_nil _ some_row
      obtain ⟨member, listed⟩ := mem_rowsOf.mp mine
      refine ⟨recorded, List.ne_nil_of_mem (mem_rowsOf.mpr ⟨List.mem_map_of_mem member, ?_⟩), ?_⟩
      · rcases refreshed_cases host data row with ⟨same, -⟩ | ⟨entry, -, -, taken⟩
        · rw [same, listed]
        · rw [taken]
          rfl
      · intro later found
        obtain ⟨mapped, listed⟩ := mem_rowsOf.mp found
        obtain ⟨before, member, rfl⟩ := List.mem_map.mp mapped
        rcases refreshed_normal (named before member) with same | ⟨entry, -, name, -, taken⟩
        · rw [same] at listed ⊢
          exact normal before (mem_rowsOf.mpr ⟨member, listed⟩)
        · rw [taken]
          exact isAbnormal_row name host
    · exact others other same
  · intro row member
    obtain ⟨before, found, rfl⟩ := List.mem_map.mp member
    rcases refreshed_normal (named before found) with same | ⟨entry, -, name, -, taken⟩
    · rw [same]
      exact formed before found
    · rw [taken]
      exact formed_row name host
  · rw [List.countP_map, counted]
    exact congrArg Int.ofNat (List.countP_congr fun row member => by simp [marks row member])

theorem Represents.success (represents : monitor.Represents status) {data : List Entry}
    (acceptable : monitor.Acceptable (.success host data)) :
    (monitor.exec (.success host data)).Represents
      (Function.update status host.pk ((status host.pk).next (.success host data))) := by
  have own := represents.shown host.pk
  have failing := represents.failing_iff host.pk
  obtain ⟨refreshes, lists⟩ := acceptable
  cases known : status host.pk with
  | unknown =>
      rw [known] at own
      obtain ⟨unrecorded, empty⟩ := own
      have named := (lists fun recorded => absurd recorded unrecorded).1
      rw [exec, if_neg unrecorded]
      exact represents_comStatusData named empty (fun recorded => absurd recorded unrecorded)
        (fun other _ => represents.shown other) represents.formed represents.nodup
        represents.counted
  | running =>
      rw [known] at own
      have recorded := own.1
      obtain ⟨kept, named⟩ :=
        refreshes recorded fun fails => by simp [failing.mp fails] at known
      have unchanged : Function.update status host.pk .running = status := by
        rw [← known, Function.update_eq_self]
      rw [exec, if_pos recorded, represents.isError_of_running known, if_neg (by simp),
        show Status.next .running (.success host data) = .running from rfl, unchanged]
      exact represents.refresh known kept named
  | failing =>
      rw [known] at own
      obtain ⟨named, some_market⟩ := lists fun _ => failing.mpr known
      obtain ⟨entry, member, market⟩ := some_market own.1
      have listed : data.any (·.isMarket) = true := List.any_eq_true.mpr ⟨entry, member, market⟩
      have running : Status.next .failing (.success host data) =
          Status.next .unknown (.success host data) := by
        simp [Status.next, listed]
      have counted := represents.counted_without known
      rw [exec, if_pos own.1, represents.isError_of_failing known, if_pos rfl, running,
        ← comStatusData_recount]
      refine represents_comStatusData named (rowsOf_without _ _) (fun _ => listed) ?_ ?_
        represents.nodup ?_
      · intro other ne
        rw [rowsOf_without_of_ne ne]
        exact represents.shown other
      · intro row member
        exact represents.formed row (List.mem_filter.mp member).1
      · rw [comStatusData_eq]
        show monitor.errorCounter - 1 =
          ((without host.pk monitor.resultData).countP Row.isAbnormal : Int)
        omega

/-! ## Runs -/

/-- A report that is acceptable changes the table as it changes what is known of its host. -/
theorem Represents.exec (represents : monitor.Represents status) {report : Report}
    (acceptable : monitor.Acceptable report) :
    (monitor.exec report).Represents
      (Function.update status report.host.pk ((status report.host.pk).next report)) := by
  cases report with
  | success host data => exact represents.success acceptable
  | failure host => exact represents.failure host

theorem represents_foldl {reports : List Report}
    (acceptable : Throughout Acceptable exec init reports) :
    (reports.foldl exec init).Represents (statusAfter reports) := by
  induction reports using List.reverseRecOn with
  | nil => exact represents_init
  | append_singleton reports report ih =>
      obtain ⟨earlier, last⟩ := throughout_concat.mp acceptable
      rw [List.foldl_append, statusAfter_concat]
      exact (ih earlier).exec last

/-- What a table shows of what is known is what the alarm needs. -/
theorem Represents.accurate {reports : List Report}
    (represents : monitor.Represents (statusAfter reports)) : Accurate reports monitor where
  counted := represents.counted
  single host := by
    rw [← List.countP_filter]
    exact (represents.shown host.pk).countP_le_one
  remembered host failed := (represents.failing_iff host.pk).mpr failed.statusAfter

/-- In every run of acceptable reports the counter is the number of abnormal rows, no host has two
of them, and every host whose last two requests have failed has one. -/
theorem accurate_foldl {reports : List Report}
    (acceptable : Throughout Acceptable exec init reports) :
    Accurate reports (reports.foldl exec init) :=
  (represents_foldl acceptable).accurate

/-- A host. -/
def forwarder : Host := ⟨['f', '1'], ['1', '0', '.', '0', '.', '0', '.', '1'], ['8', '0']⟩

/-- A host fails, is back with a market, and fails twice. -/
def relapse : List Report :=
  [.failure forwarder, .success forwarder [⟨['S', 'Z'], true, ⟨['3'], ['0'], ['0'], ['0']⟩⟩],
    .failure forwarder, .failure forwarder]

theorem accurate_foldl_relapse : Accurate relapse (relapse.foldl exec init) := by
  refine accurate_foldl ?_
  rw [show relapse = ((([] ++ [_]) ++ [_]) ++ [_]) ++ [_] from rfl, throughout_concat,
    throughout_concat, throughout_concat, throughout_concat]
  refine ⟨⟨⟨⟨.nil, trivial⟩, ?_⟩, trivial⟩, trivial⟩
  refine ⟨fun _ running => absurd ?_ running, fun _ => ⟨by decide, by decide⟩⟩
  exact ⟨forwarder.errorRow, List.mem_singleton_self _, rfl, rfl⟩

/-- A host fails, is back without a market, and fails twice: it has no row, and is not counted. -/
theorem accurate_without_market : ¬ ∀ reports, Accurate reports (reports.foldl exec init) := by
  intro accurate
  have failed : FailedTwice
      [.failure forwarder, .success forwarder [], .failure forwarder, .failure forwarder]
      forwarder.pk := ⟨[.failure forwarder, .success forwarder []], forwarder, forwarder, rfl⟩
  obtain ⟨row, member, -⟩ := (accurate _).remembered forwarder failed
  exact absurd member List.not_mem_nil

/-! ## What the table cannot take -/

/-- A host that is recorded without a row is forgotten, however often it fails. -/
theorem not_accurate_of_rowless {reports : List Report}
    (recorded : host.pk ∈ (reports.foldl exec init).recordPk)
    (rowless : rowsOf host.pk (reports.foldl exec init).resultData = []) :
    ¬Accurate (reports ++ [Report.failure host, .failure host])
      ((reports ++ [Report.failure host, .failure host]).foldl exec init) := by
  intro accurate
  have unchanged : (reports.foldl exec init).exec (.failure host) = reports.foldl exec init := by
    rw [exec, if_pos recorded, deleteGrid_of_empty rowless]
  rw [List.foldl_append, List.foldl_cons, List.foldl_cons, List.foldl_nil, unchanged,
    unchanged] at accurate
  have failed : FailedTwice (reports ++ [Report.failure host, .failure host]) host.pk :=
    ⟨reports.filter (·.host.pk = host.pk), host, host, by simp [Report.host]⟩
  obtain ⟨row, member, own, -⟩ := accurate.remembered host failed
  have found := mem_rowsOf.mpr ⟨member, own⟩
  rw [rowless] at found
  exact List.not_mem_nil found

/-- A host is recorded without a row, or the counter is wrong. -/
def Spoilt (monitor : Monitor) : Prop :=
  (∃ other : Host, other.pk ∈ monitor.recordPk ∧ rowsOf other.pk monitor.resultData = []) ∨
    monitor.errorCounter ≠ monitor.resultData.countP Row.isAbnormal

/-- A market that is called as an abnormal row is counts as one. -/
theorem countP_marketRows_pos (host : Host) {data : List Entry}
    (named : ¬∀ entry ∈ data, entry.isMarket = true → entry.keyname ≠ abnormal) :
    0 < (marketRows host data).countP Row.isAbnormal := by
  push Not at named
  obtain ⟨entry, member, market, name⟩ := named
  refine List.countP_pos_iff.mpr ⟨_, mem_marketRows.mpr ⟨entry, member, market, rfl⟩, ?_⟩
  exact decide_eq_true name

/-- Where no row loses its mark and one gets it, more are marked. -/
theorem countP_lt_countP_map {change : Row → Row} {row : Row} (member : row ∈ rows)
    (stays : ∀ row ∈ rows, row.isAbnormal = true → (change row).isAbnormal = true)
    (normal : row.isAbnormal = false) (marked : (change row).isAbnormal = true) :
    rows.countP Row.isAbnormal < (rows.map change).countP Row.isAbnormal := by
  obtain ⟨before, after, rfl⟩ := List.append_of_mem member
  have front : before.countP Row.isAbnormal ≤ before.countP (Row.isAbnormal ∘ change) :=
    List.countP_mono_left fun other found => stays other (List.mem_append_left _ found)
  have back : after.countP Row.isAbnormal ≤ after.countP (Row.isAbnormal ∘ change) :=
    List.countP_mono_left fun other found =>
      stays other (List.mem_append_right _ (List.mem_cons_of_mem _ found))
  rw [List.countP_map, List.countP_append, List.countP_append, List.countP_cons, List.countP_cons,
    normal, Function.comp_apply, marked]
  simp only [Bool.false_eq_true, if_false, if_true]
  omega

/-- A refresh that is not acceptable takes a host's last row over, or marks a row as abnormal. -/
theorem Represents.spoilt_refresh (represents : monitor.Represents status) {data : List Entry}
    (running : status host.pk = .running)
    (refused : ¬((∀ row ∈ monitor.resultData, ∃ kept ∈ monitor.resultData,
        kept.pk = row.pk ∧ ¬Takes host data kept) ∧
      ∀ row ∈ monitor.resultData, row.moreBazaar ≠ host.pk ++ '_' :: abnormal ∨
        ∀ entry ∈ data, entry.keyname ≠ abnormal)) :
    (monitor.comSameStatusData host data).Spoilt := by
  have own := represents.shown host.pk
  rw [running] at own
  obtain ⟨-, -, normal⟩ := own
  rw [comSameStatusData_eq]
  by_cases kept : ∀ row ∈ monitor.resultData, ∃ kept ∈ monitor.resultData,
      kept.pk = row.pk ∧ ¬Takes host data kept
  · have named := not_and.mp refused kept
    push Not at named
    obtain ⟨row, member, key, entry, found, name⟩ := named
    have plain : row.isAbnormal = false := by
      by_contra differs
      have marked : row.isAbnormal = true := by simpa using differs
      have called : row.bazaar = abnormal := of_decide_eq_true marked
      have keys := (represents.formed row member).key
      rw [called, key] at keys
      have mine : row.pk = host.pk := (List.append_cancel_right keys).symm
      exact differs (normal row (mem_rowsOf.mpr ⟨member, mine⟩))
    have stays : ∀ row ∈ monitor.resultData, row.isAbnormal = true →
        (refreshed host data row).isAbnormal = true := by
      intro other there marked
      have free := represents.not_takes kept there marked
      rcases refreshed_cases host data other with ⟨same, -⟩ | ⟨entry, within, matched, -⟩
      · rwa [same]
      · by_cases mine : other.pk = host.pk
        · rw [normal other (mem_rowsOf.mpr ⟨there, mine⟩)] at marked
          cases marked
        · exact absurd ⟨mine, entry, within, matched⟩ free
    have turned : (refreshed host data row).isAbnormal = true := by
      rcases refreshed_cases host data row with ⟨-, unmatched⟩ | ⟨last, -, matched, taken⟩
      · exact absurd (name ▸ key) (unmatched entry found)
      · rw [taken]
        refine decide_eq_true ?_
        have names := List.append_cancel_left (key.symm.trans matched)
        exact (List.cons.inj names).2.symm
    have more := countP_lt_countP_map member stays plain turned
    refine Or.inr ?_
    show monitor.errorCounter ≠
      ((monitor.resultData.map (refreshed host data)).countP Row.isAbnormal : Int)
    rw [represents.counted]
    omega
  · push Not at kept
    obtain ⟨row, member, lost⟩ := kept
    have named := (represents.formed row member).host
    have foreign : row.pk ≠ host.pk := (lost row member rfl).1
    refine Or.inl ⟨⟨row.branchName, row.ip, row.port⟩, ?_, ?_⟩
    · show row.ip ++ '_' :: row.port ∈ monitor.recordPk
      rw [← named]
      exact (represents.of_mem member).1
    · show rowsOf (row.ip ++ '_' :: row.port) _ = []
      rw [← named, rowsOf_refreshed foreign]
      refine List.filter_eq_nil_iff.mpr fun other own => ?_
      obtain ⟨there, same⟩ := mem_rowsOf.mp own
      simpa using lost other there same

/-- A success that is not acceptable spoils the table. -/
theorem Represents.spoilt (represents : monitor.Represents status) {data : List Entry}
    (refused : ¬monitor.Acceptable (.success host data)) :
    (monitor.exec (.success host data)).Spoilt := by
  have own := represents.shown host.pk
  have failing := represents.failing_iff host.pk
  have neither := not_and_or.mp refused
  cases known : status host.pk with
  | unknown =>
      rw [known] at own
      obtain ⟨unrecorded, -⟩ := own
      have lists := neither.resolve_left fun refreshes =>
        refreshes fun recorded => absurd recorded unrecorded
      have named := not_and'.mp (Classical.not_imp.mp lists).2 fun recorded =>
        absurd recorded unrecorded
      have more := countP_marketRows_pos host named
      rw [Monitor.exec, if_neg unrecorded, comStatusData_eq]
      refine Or.inr ?_
      show monitor.errorCounter ≠
        ((monitor.resultData ++ marketRows host data).countP Row.isAbnormal : Int)
      rw [represents.counted, List.countP_append]
      omega
  | running =>
      rw [known] at own
      have running : ¬monitor.Failing host.pk := fun fails => by simp [failing.mp fails] at known
      have refreshes := neither.resolve_right fun lists =>
        lists fun fails => absurd (fails own.1) running
      have refused := (Classical.not_imp.mp (Classical.not_imp.mp refreshes).2).2
      rw [Monitor.exec, if_pos own.1, represents.isError_of_running known, if_neg (by simp)]
      exact represents.spoilt_refresh known refused
  | failing =>
      rw [known] at own
      have lists := neither.resolve_left fun refreshes =>
        refreshes fun _ running => absurd (failing.mpr known) running
      have refused := (Classical.not_imp.mp lists).2
      have counted := represents.counted_without known
      rw [Monitor.exec, if_pos own.1, represents.isError_of_failing known, if_pos rfl,
        comStatusData_eq]
      by_cases market : ∃ entry ∈ data, entry.isMarket = true
      · have named := not_and'.mp refused fun _ => market
        have more := countP_marketRows_pos host named
        refine Or.inr ?_
        show monitor.errorCounter - 1 ≠
          ((without host.pk monitor.resultData ++ marketRows host data).countP Row.isAbnormal : Int)
        rw [List.countP_append]
        omega
      · have none : marketRows host data = [] := by
          rw [marketRows, List.filter_eq_nil_iff.mpr fun entry member is_market =>
            market ⟨entry, member, is_market⟩, List.map_nil]
        refine Or.inl ⟨host, ?_, ?_⟩
        · show host.pk ∈ ite _ _ _
          rw [if_pos (Or.inl own.1)]
          exact own.1
        · show rowsOf host.pk (without host.pk monitor.resultData ++ marketRows host data) = []
          rw [none, List.append_nil, rowsOf_without]

/-- A run of acceptable reports that goes on with another one leads to failures after which the
alarm is wrong. -/
theorem exists_not_accurate {reports : List Report}
    (acceptable : Throughout Acceptable exec init reports) {report : Report}
    (refused : ¬(reports.foldl exec init).Acceptable report) :
    ∃ failures : List Host, ¬Accurate (reports ++ [report] ++ failures.map Report.failure)
      ((reports ++ [report] ++ failures.map Report.failure).foldl exec init) := by
  cases report with
  | failure host => exact absurd trivial refused
  | success host data =>
      have last : (reports ++ [Report.success host data]).foldl exec init =
          (reports.foldl exec init).exec (.success host data) := by
        rw [List.foldl_append, List.foldl_cons, List.foldl_nil]
      rcases (represents_foldl acceptable).spoilt refused with ⟨other, recorded, rowless⟩ | wrong
      · rw [← last] at recorded rowless
        exact ⟨[other, other], not_accurate_of_rowless recorded rowless⟩
      · refine ⟨[], fun accurate => wrong ?_⟩
        rw [List.map_nil, List.append_nil, last] at accurate
        exact accurate.counted

end Monitor

end FlashForwarder
