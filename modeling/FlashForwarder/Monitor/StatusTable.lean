import Mathlib.Data.List.Basic
import Mathlib.Tactic.TypeStar

/-!
# The table of the monitoring page

The page asks every host for its status, over and over, and keeps a table of what they answer.  A
host that answers has a row for each of its markets; one that does not has an abnormal row, which
sounds the alarm.  Its functions are translated here, and said to be what they are on the rows of
one host and on those of the others.
-/

namespace FlashForwarder

/-- An element of what `/list` answers. -/
structure Host where
  /-- `id` -/
  branchName : List Char
  /-- `ip` -/
  ip : List Char
  /-- `port` -/
  port : List Char

/-- `pk`, which is all that a host is known by. -/
def Host.pk (host : Host) : List Char := host.ip ++ '_' :: host.port

/-- `异常` -/
def abnormal : List Char := ['异', '常']

/-- `higno` -/
def higno : List Char := ['h', 'i', 'g', 'n', 'o']

/-- `higok` -/
def higok : List Char := ['h', 'i', 'g', 'o', 'k']

/-- What the page shows of the messages of a market. -/
structure Figures where
  /-- `connect_status` -/
  connectStatus : List Char
  /-- `total_received_bytes` -/
  totalReceivedBytes : List Char
  /-- `last_msg_timestamp` -/
  lastMsgTimestamp : List Char
  /-- `total_bytes_sent` -/
  totalBytesSent : List Char

/-- A property of what `/status` answers. -/
structure Entry where
  /-- Its name. -/
  keyname : List Char
  /-- `is_market` -/
  isMarket : Bool
  /-- The rest of it. -/
  figures : Figures

/-- An element of `ResultData`. -/
structure Row where
  /-- `branchName` -/
  branchName : List Char
  /-- `ip` -/
  ip : List Char
  /-- `port` -/
  port : List Char
  /-- `pk` -/
  pk : List Char
  /-- `bazaar` -/
  bazaar : List Char
  /-- `moreBazaar` -/
  moreBazaar : List Char
  /-- `highlight` -/
  highlight : List Char
  /-- `islink`, if it is set. -/
  islink : Option (List Char)
  /-- The other columns. -/
  figures : Figures

/-- Whether a row is marked as abnormal. -/
def Row.isAbnormal (row : Row) : Bool := row.bazaar = abnormal

/-- The row for a host that does not answer. -/
def Host.errorRow (host : Host) : Row where
  branchName := host.branchName
  ip := host.ip
  port := host.port
  pk := host.pk
  bazaar := abnormal
  moreBazaar := host.pk ++ '_' :: abnormal
  highlight := higok
  islink := some ['l', 'i', 'n', 'k', 'n', 'o']
  figures := ⟨abnormal, ['-', '-'], ['-', '-'], ['-', '-']⟩

/-- The row for a market of a host; `islink` is set on `comobj` and not on the row. -/
def Entry.row (entry : Entry) (host : Host) : Row where
  branchName := host.branchName
  ip := host.ip
  port := host.port
  pk := host.pk
  bazaar := entry.keyname
  moreBazaar := host.pk ++ '_' :: entry.keyname
  highlight := higno
  islink := none
  figures := entry.figures

/-- The page. -/
structure Monitor where
  /-- `ResultData` -/
  resultData : List Row
  /-- `recordPk` -/
  recordPk : List (List Char)
  /-- `$scope.errorCounter` -/
  errorCounter : Int

namespace Monitor

/-- The page before anything is reported. -/
def init : Monitor := ⟨[], [], 0⟩

variable (monitor : Monitor)

/-- One pass of the loop of `ComStatusData`. -/
def addEntry (host : Host) (monitor : Monitor) (entry : Entry) : Monitor :=
  if entry.isMarket then
    { monitor with
      resultData := monitor.resultData ++ [entry.row host]
      recordPk :=
        if host.pk ∈ monitor.recordPk then monitor.recordPk else monitor.recordPk ++ [host.pk] }
  else monitor

/-- `ComStatusData` -/
def comStatusData (host : Host) (data : List Entry) : Monitor := data.foldl (addEntry host) monitor

/-- The row in place of one that an entry may have the primary key of. -/
def refreshRow (host : Host) (row : Row) (entry : Entry) : Row :=
  if row.moreBazaar = host.pk ++ '_' :: entry.keyname then entry.row host else row

/-- One pass of the outer loop of `ComSameStatusData`. -/
def refreshEntry (host : Host) (monitor : Monitor) (entry : Entry) : Monitor :=
  { monitor with resultData := monitor.resultData.map (refreshRow host · entry) }

/-- `ComSameStatusData` -/
def comSameStatusData (host : Host) (data : List Entry) : Monitor :=
  data.foldl (refreshEntry host) monitor

/-- The loop of `isError`, from some row on.  It does not look at the row behind one that it has
removed. -/
def isErrorLoop (pk : List Char) : List Row → List Row × Bool
  | [] => ([], false)
  | [row] => if row.pk = pk ∧ row.isAbnormal then ([], true) else ([row], false)
  | row :: next :: rows =>
      if row.pk = pk ∧ row.isAbnormal then (next :: (isErrorLoop pk rows).1, true)
      else (row :: (isErrorLoop pk (next :: rows)).1, (isErrorLoop pk (next :: rows)).2)

/-- `isError` -/
def isError (pk : List Char) : Monitor × Bool :=
  if pk ∈ monitor.recordPk then
    ({ monitor with resultData := (isErrorLoop pk monitor.resultData).1 },
      (isErrorLoop pk monitor.resultData).2)
  else (monitor, false)

/-- The rows that `DeleteGrid` deletes. -/
def deletes (pk : List Char) (row : Row) : Bool := row.pk = pk ∧ row.highlight = higno

/-- `DeleteGrid`; if there is no `pk` to remove, `splice(-1, 1)` removes the last one. -/
def deleteGrid (pk : List Char) : Monitor :=
  { monitor with
    resultData := monitor.resultData.filter fun row => !deletes pk row
    recordPk :=
      if monitor.resultData.any (deletes pk) then
        if pk ∈ monitor.recordPk then monitor.recordPk.erase pk else monitor.recordPk.dropLast
      else monitor.recordPk }

/-- What comes of a status request. -/
inductive Report where
  /-- The host has answered. -/
  | success (host : Host) (data : List Entry)
  /-- It has not. -/
  | failure (host : Host)

/-- The host that was asked. -/
def Report.host : Report → Host
  | .success host _ => host
  | .failure host => host

/-- The handlers of `StatusHttpJsonp`. -/
def exec : Report → Monitor
  | .success host data =>
      if host.pk ∈ monitor.recordPk then
        if (monitor.isError host.pk).2 then
          let listed := (monitor.isError host.pk).1.comStatusData host data
          { listed with errorCounter := listed.errorCounter - 1 }
        else (monitor.isError host.pk).1.comSameStatusData host data
      else monitor.comStatusData host data
  | .failure host =>
      if host.pk ∈ monitor.recordPk then monitor.deleteGrid host.pk
      else
        { resultData := monitor.resultData ++ [host.errorRow]
          recordPk := monitor.recordPk ++ [host.pk]
          errorCounter := monitor.errorCounter + 1 }

/-! ## The rows of a host -/

/-- The rows of a host. -/
def rowsOf (pk : List Char) (rows : List Row) : List Row := rows.filter (·.pk = pk)

variable {monitor : Monitor} {pk : List Char} {rows : List Row} {host : Host}

@[simp] theorem mem_rowsOf {row : Row} : row ∈ rowsOf pk rows ↔ row ∈ rows ∧ row.pk = pk := by
  rw [rowsOf, List.mem_filter, decide_eq_true_eq]

theorem rowsOf_append (pk : List Char) (rows added : List Row) :
    rowsOf pk (rows ++ added) = rowsOf pk rows ++ rowsOf pk added := List.filter_append ..

theorem rowsOf_eq_self (own : ∀ row ∈ rows, row.pk = pk) : rowsOf pk rows = rows :=
  List.filter_eq_self.mpr fun row member => decide_eq_true (own row member)

theorem rowsOf_eq_nil (others : ∀ row ∈ rows, row.pk ≠ pk) : rowsOf pk rows = [] :=
  List.filter_eq_nil_iff.mpr fun row member => by simpa using others row member

/-- The rows of a host are removed. -/
def without (pk : List Char) (rows : List Row) : List Row := rows.filter (·.pk ≠ pk)

theorem without_cons_of_ne {row : Row} (ne : row.pk ≠ pk) (rows : List Row) :
    without pk (row :: rows) = row :: without pk rows :=
  List.filter_cons_of_pos (by simpa using ne)

theorem rowsOf_without (pk : List Char) (rows : List Row) : rowsOf pk (without pk rows) = [] :=
  rowsOf_eq_nil fun row member => by simpa using (List.mem_filter.mp member).2

theorem rowsOf_without_of_ne {other : List Char} (ne : other ≠ pk) (rows : List Row) :
    rowsOf other (without pk rows) = rowsOf other rows := by
  rw [rowsOf, without, List.filter_filter]
  refine List.filter_congr fun row _ => ?_
  by_cases same : row.pk = other
  · simp [same, ne]
  · simp [same]

/-- The abnormal rows are the host's and the others. -/
theorem countP_without (pk : List Char) (rows : List Row) :
    rows.countP Row.isAbnormal =
      (rowsOf pk rows).countP Row.isAbnormal + (without pk rows).countP Row.isAbnormal := by
  rw [rowsOf, without, List.countP_filter, List.countP_filter]
  induction rows with
  | nil => rfl
  | cons row rows ih =>
      simp only [List.countP_cons, ih]
      by_cases same : row.pk = pk <;> simp [same] <;> omega

/-! ## What the functions do to the rows -/

/-- The rows that `ComStatusData` adds. -/
def marketRows (host : Host) (data : List Entry) : List Row :=
  (data.filter (·.isMarket)).map (·.row host)

theorem comStatusData_eq (monitor : Monitor) (host : Host) (data : List Entry) :
    monitor.comStatusData host data =
      { monitor with
        resultData := monitor.resultData ++ marketRows host data
        recordPk :=
          if host.pk ∈ monitor.recordPk ∨ data.any (·.isMarket) = false then monitor.recordPk
          else monitor.recordPk ++ [host.pk] } := by
  induction data generalizing monitor with
  | nil => simp [comStatusData, marketRows]
  | cons entry data ih =>
      have tail : monitor.comStatusData host (entry :: data) =
          (addEntry host monitor entry).comStatusData host data := rfl
      rw [tail, ih, addEntry]
      cases market : entry.isMarket with
      | false => simp [marketRows, market]
      | true =>
          by_cases recorded : host.pk ∈ monitor.recordPk
          · simp [marketRows, market, recorded]
          · simp [marketRows, market, recorded]

/-- If the host has no abnormal row, none is removed. -/
theorem isErrorLoop_of_normal (normal : ∀ row ∈ rowsOf pk rows, row.isAbnormal = false) :
    isErrorLoop pk rows = (rows, false) := by
  fun_induction isErrorLoop pk rows with
  | case1 => rfl
  | case2 row removed => simpa [removed.2] using normal row (by simp [removed.1])
  | case3 row kept => rfl
  | case4 row next rows removed ih => simpa [removed.2] using normal row (by simp [removed.1])
  | case5 row next rows kept ih =>
      rw [ih fun row member => normal row ?_]
      rw [mem_rowsOf] at member ⊢
      exact ⟨List.mem_cons_of_mem _ member.1, member.2⟩

/-- If an abnormal row is all that the host has, it is removed. -/
theorem isErrorLoop_of_single {row : Row} (single : rowsOf pk rows = [row])
    (marked : row.isAbnormal = true) : isErrorLoop pk rows = (without pk rows, true) := by
  fun_induction isErrorLoop pk rows with
  | case1 => simp [rowsOf] at single
  | case2 first removed => simp [without, removed.1]
  | case3 first kept =>
      have own := mem_rowsOf.mp (single ▸ List.mem_singleton_self row)
      obtain rfl := List.mem_singleton.mp own.1
      exact absurd ⟨own.2, marked⟩ kept
  | case4 first next rows removed ih =>
      have others : rowsOf pk (next :: rows) = [] := by
        rw [rowsOf, List.filter_cons_of_pos (by simp [removed.1])] at single
        exact (List.cons.inj single).2
      have kept : without pk (next :: rows) = next :: rows :=
        List.filter_eq_self.mpr fun row member => by
          simpa using List.filter_eq_nil_iff.mp others row member
      rw [isErrorLoop_of_normal fun row member => ?_]
      · rw [without, List.filter_cons_of_neg (by simp [removed.1])]
        exact congrArg (·, true) kept.symm
      · have later : row ∈ rowsOf pk (next :: rows) := by
          rw [mem_rowsOf] at member ⊢
          exact ⟨List.mem_cons_of_mem _ member.1, member.2⟩
        rw [others] at later
        exact absurd later List.not_mem_nil
  | case5 first next rows kept ih =>
      have foreign : first.pk ≠ pk := by
        intro own
        rw [rowsOf, List.filter_cons_of_pos (by simp [own])] at single
        exact kept ⟨own, (List.cons.inj single).1 ▸ marked⟩
      rw [rowsOf, List.filter_cons_of_neg (by simp [foreign])] at single
      rw [ih single, without_cons_of_ne foreign]

/-- What becomes of a row in `ComSameStatusData`. -/
def refreshed (host : Host) (data : List Entry) (row : Row) : Row :=
  data.foldl (refreshRow host) row

theorem comSameStatusData_eq (monitor : Monitor) (host : Host) (data : List Entry) :
    monitor.comSameStatusData host data =
      { monitor with resultData := monitor.resultData.map (refreshed host data) } := by
  induction data generalizing monitor with
  | nil =>
      have same : refreshed host [] = id := rfl
      rw [same, List.map_id]
      rfl
  | cons entry data ih =>
      have tail : monitor.comSameStatusData host (entry :: data) =
          (refreshEntry host monitor entry).comSameStatusData host data := rfl
      rw [tail, ih, refreshEntry, List.map_map]
      rfl

/-- A row is replaced by the market's row if it has the primary key of a market. -/
theorem refreshed_cases (host : Host) (data : List Entry) (row : Row) :
    (refreshed host data row = row ∧
      ∀ entry ∈ data, row.moreBazaar ≠ host.pk ++ '_' :: entry.keyname) ∨
    ∃ entry ∈ data, row.moreBazaar = host.pk ++ '_' :: entry.keyname ∧
      refreshed host data row = entry.row host := by
  induction data generalizing row with
  | nil => exact Or.inl ⟨rfl, by simp⟩
  | cons entry data ih =>
      have tail : refreshed host (entry :: data) row =
          refreshed host data (refreshRow host row entry) := rfl
      rw [tail, refreshRow]
      split
      · rename_i matched
        refine Or.inr ?_
        rcases ih (entry.row host) with ⟨last, -⟩ | ⟨other, member, key, last⟩
        · exact ⟨entry, List.mem_cons_self, matched, last⟩
        · exact ⟨other, List.mem_cons_of_mem _ member, matched.trans key, last⟩
      · rename_i unmatched
        rcases ih row with ⟨last, none⟩ | ⟨other, member, key, last⟩
        · exact Or.inl ⟨last, List.forall_mem_cons.mpr ⟨unmatched, none⟩⟩
        · exact Or.inr ⟨other, List.mem_cons_of_mem _ member, key, last⟩

/-! ## How rows are marked -/

/-- A row's keys are made of its host and its market, and it is marked in two places. -/
structure Formed (row : Row) : Prop where
  host : row.pk = row.ip ++ '_' :: row.port
  key : row.moreBazaar = row.pk ++ '_' :: row.bazaar
  highlighted : row.highlight = higno ↔ row.isAbnormal = false

theorem formed_errorRow (host : Host) : Formed host.errorRow where
  host := rfl
  key := rfl
  highlighted := by
    refine iff_of_false ?_ ?_
    · show higok ≠ higno
      decide
    · show decide (abnormal = abnormal) ≠ false
      decide

theorem isAbnormal_row {entry : Entry} (named : entry.keyname ≠ abnormal) (host : Host) :
    (entry.row host).isAbnormal = false := decide_eq_false named

theorem formed_row {entry : Entry} (named : entry.keyname ≠ abnormal) (host : Host) :
    Formed (entry.row host) := ⟨rfl, rfl, iff_of_true rfl (isAbnormal_row named host)⟩

theorem deleteGrid_of_kept (kept : ∀ row ∈ monitor.resultData, deletes pk row = false) :
    monitor.deleteGrid pk = monitor := by
  have none : monitor.resultData.any (deletes pk) = false :=
    List.any_eq_false.mpr fun row member => by simp [kept row member]
  have all : monitor.resultData.filter (fun row => !deletes pk row) = monitor.resultData :=
    List.filter_eq_self.mpr fun row member => by simp [kept row member]
  rw [deleteGrid, none, all]
  rfl

/-- If all rows of the host are abnormal, `DeleteGrid` does nothing. -/
theorem deleteGrid_of_abnormal (formed : ∀ row ∈ monitor.resultData, Formed row)
    (marked : ∀ row ∈ rowsOf pk monitor.resultData, row.isAbnormal = true) :
    monitor.deleteGrid pk = monitor := by
  have kept : ∀ row ∈ monitor.resultData, deletes pk row = false := by
    intro row member
    refine decide_eq_false ?_
    rintro ⟨own, highlighted⟩
    have normal := (formed row member).highlighted.mp highlighted
    rw [marked row (mem_rowsOf.mpr ⟨member, own⟩)] at normal
    exact Bool.false_ne_true normal.symm
  exact deleteGrid_of_kept kept

/-- If the host has no row, it does nothing either. -/
theorem deleteGrid_of_empty (empty : rowsOf pk monitor.resultData = []) :
    monitor.deleteGrid pk = monitor := by
  have kept : ∀ row ∈ monitor.resultData, deletes pk row = false := by
    intro row member
    refine decide_eq_false fun deleted => ?_
    have found := mem_rowsOf.mpr ⟨member, deleted.1⟩
    rw [empty] at found
    exact List.not_mem_nil found
  exact deleteGrid_of_kept kept

theorem deleteGrid_of_normal (formed : ∀ row ∈ monitor.resultData, Formed row)
    (recorded : pk ∈ monitor.recordPk) (some_row : rowsOf pk monitor.resultData ≠ [])
    (normal : ∀ row ∈ rowsOf pk monitor.resultData, row.isAbnormal = false) :
    monitor.deleteGrid pk =
      { monitor with
        resultData := without pk monitor.resultData
        recordPk := monitor.recordPk.erase pk } := by
  have deleted : ∀ row ∈ monitor.resultData, deletes pk row = decide (row.pk = pk) := by
    intro row member
    refine decide_eq_decide.mpr (and_iff_left_of_imp fun own => ?_)
    exact (formed row member).highlighted.mpr (normal row (mem_rowsOf.mpr ⟨member, own⟩))
  obtain ⟨row, found⟩ := List.exists_mem_of_ne_nil _ some_row
  obtain ⟨member, own⟩ := mem_rowsOf.mp found
  have any : monitor.resultData.any (deletes pk) = true :=
    List.any_eq_true.mpr ⟨row, member, by simp [deleted row member, own]⟩
  have rest : monitor.resultData.filter (fun row => !deletes pk row) =
      without pk monitor.resultData :=
    List.filter_congr fun row member => by simp [deleted row member]
  rw [deleteGrid, any, rest, if_pos rfl, if_pos recorded]

theorem pk_of_mem_marketRows {data : List Entry} {row : Row} (member : row ∈ marketRows host data) :
    row.pk = host.pk := by
  obtain ⟨entry, -, rfl⟩ := List.mem_map.mp member
  rfl

theorem mem_marketRows {data : List Entry} {row : Row} :
    row ∈ marketRows host data ↔ ∃ entry ∈ data, entry.isMarket = true ∧ entry.row host = row := by
  simp [marketRows, and_assoc]

/-- What `ComSameStatusData` makes of a row: it stays, or it becomes a normal one of the host. -/
theorem refreshed_normal {data : List Entry} {row : Row}
    (named : row.moreBazaar ≠ host.pk ++ '_' :: abnormal ∨
      ∀ entry ∈ data, entry.keyname ≠ abnormal) :
    refreshed host data row = row ∨ ∃ entry ∈ data, entry.keyname ≠ abnormal ∧
      row.moreBazaar = host.pk ++ '_' :: entry.keyname ∧
        refreshed host data row = entry.row host := by
  rcases refreshed_cases host data row with ⟨kept, -⟩ | ⟨entry, member, key, taken⟩
  · exact Or.inl kept
  · refine Or.inr ⟨entry, member, ?_, key, taken⟩
    rcases named with ne | names
    · intro same
      exact ne (same ▸ key)
    · exact names entry member

/-- Taking a row off the counter and adding the markets can be done in either order. -/
theorem comStatusData_recount (monitor : Monitor) (host : Host) (data : List Entry) (count : Int) :
    { monitor with errorCounter := count }.comStatusData host data =
      { monitor.comStatusData host data with errorCounter := count } := by
  rw [comStatusData_eq, comStatusData_eq]

end Monitor

end FlashForwarder
