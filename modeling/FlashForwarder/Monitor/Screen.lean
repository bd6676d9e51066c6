import FlashForwarder.Monitor.Pagination

/-!
# What the monitoring page shows

The table grows and shrinks with the reports of the hosts while a user goes through its pages.  The
count of the rows is only brought up to date when a row is put in or replaced, so it may be too high
after some were deleted; it is never too low, and the pages still make up the table.
-/

namespace FlashForwarder

namespace Monitor

variable (monitor : Monitor)

/-- Whether a report sets `savejosn`, which makes the page count the rows.  `DeleteGrid` does
not. -/
def announces : Report → Bool
  | .success host data =>
      if monitor.recordPk.contains host.pk && !(monitor.isError host.pk).2 then
        data.any fun entry =>
          (monitor.isError host.pk).1.resultData.any fun row =>
            row.moreBazaar = host.pk ++ '_' :: entry.keyname
      else data.any (·.isMarket)
  | .failure host => !monitor.recordPk.contains host.pk

/-! ## What is not counted -/

variable {monitor : Monitor} {pk : List Char}

theorem length_isErrorLoop_le (pk : List Char) (rows : List Row) :
    (isErrorLoop pk rows).1.length ≤ rows.length := by
  fun_induction isErrorLoop pk rows with
  | case1 => exact Nat.le_refl _
  | case2 row removed => exact Nat.zero_le _
  | case3 row kept => exact Nat.le_refl _
  | case4 row next rows removed ih => exact Nat.succ_le_succ (Nat.le_succ_of_le ih)
  | case5 row next rows kept ih => exact Nat.succ_le_succ ih

theorem length_isError_le (monitor : Monitor) (pk : List Char) :
    (monitor.isError pk).1.resultData.length ≤ monitor.resultData.length := by
  rw [isError]
  split_ifs
  · exact length_isErrorLoop_le pk monitor.resultData
  · exact Nat.le_refl _

theorem resultData_comStatusData (monitor : Monitor) (host : Host) {data : List Entry}
    (none : data.any (·.isMarket) = false) :
    (monitor.comStatusData host data).resultData = monitor.resultData := by
  have rows : marketRows host data = [] := by
    rw [marketRows, List.filter_eq_nil_iff.mpr, List.map_nil]
    simpa using none
  rw [comStatusData_eq, rows, List.append_nil]

theorem length_exec_le {report : Report} (quiet : monitor.announces report = false) :
    (monitor.exec report).resultData.length ≤ monitor.resultData.length := by
  cases report with
  | success host data =>
      have fewer := length_isError_le monitor host.pk
      simp only [announces] at quiet
      simp only [exec]
      split_ifs with recorded removed
      · rw [if_neg (by simp [removed])] at quiet
        rwa [resultData_comStatusData _ _ quiet]
      · rw [comSameStatusData_eq]
        simpa using fewer
      · rw [if_neg (by simp [recorded])] at quiet
        rw [resultData_comStatusData _ _ quiet]
  | failure host =>
      have recorded : host.pk ∈ monitor.recordPk := by simpa [announces] using quiet
      simp only [exec, if_pos recorded]
      exact List.length_filter_le ..

end Monitor

/-- `offset`; a start before the first row counts from the end. -/
def offset {α : Type} (start : Int) (input : List α) : List α :=
  if input = [] then []
  else input.drop (if start < 0 then (input.length + start).toNat else start.toNat)

/-- The page in the browser. -/
structure Screen where
  /-- The table. -/
  monitor : Monitor
  /-- The directive with its `conf`. -/
  pager : Pager

namespace Screen

/-- The first digest. -/
def load (pagesLength : Nat) : Option Screen :=
  ((Pager.init pagesLength).digest 10).map (⟨Monitor.init, ·⟩)

variable (screen : Screen)

/-- The rows that `ng-repeat` shows for a page. -/
def rowsOn (page : Nat) : List Row :=
  (offset ((page - 1 : Int) * screen.pager.itemsPerPage) screen.monitor.resultData).take
    screen.pager.itemsPerPage

/-- The rows that are shown. -/
def rows : List Row := screen.rowsOn screen.pager.currentPage.value

/-- What happens to it. -/
inductive Event where
  /-- A status request is done. -/
  | report (report : Monitor.Report)
  /-- The user does something. -/
  | act (act : Pager.Act)

/-- The pager before the digest. -/
def recount (report : Monitor.Report) : Pager :=
  if screen.monitor.announces report then
    { screen.pager with totalItems := (screen.monitor.exec report).resultData.length }
  else screen.pager

/-- An event with its digest. -/
def exec (screen : Screen) : Event → Option Screen
  | .report report =>
      ((screen.recount report).digest 10).map (⟨screen.monitor.exec report, ·⟩)
  | .act act => (screen.pager.exec act).map (⟨screen.monitor, ·⟩)

/-- A run. -/
def run (pagesLength : Nat) (events : List Event) : Option Screen :=
  (load pagesLength).bind fun screen => events.foldlM exec screen

/-! ## The pages of the table -/

variable {screen next : Screen}

theorem offset_natCast {α : Type} (start : Nat) (input : List α) :
    offset start input = input.drop start := by
  rw [offset]
  split_ifs with empty
  · rw [empty, List.drop_nil]
  · omega
  · rw [Int.toNat_natCast]

theorem rowsOn_succ (screen : Screen) (before : Nat) :
    screen.rowsOn (before + 1) =
      (screen.monitor.resultData.drop (before * screen.pager.itemsPerPage)).take
        screen.pager.itemsPerPage := by
  have start : (((before + 1 : Nat) : Int) - 1) * screen.pager.itemsPerPage =
      ((before * screen.pager.itemsPerPage : Nat) : Int) := by
    push_cast
    rw [add_sub_cancel_right]
  rw [rowsOn, start, offset_natCast]

/-- The first pages are the first rows, in their order. -/
theorem flatMap_rowsOn (screen : Screen) (pages : Nat) :
    (List.range' 1 pages).flatMap screen.rowsOn =
      screen.monitor.resultData.take (pages * screen.pager.itemsPerPage) := by
  induction pages with
  | zero => rw [Nat.zero_mul]; rfl
  | succ pages induction =>
      rw [List.range'_concat, List.flatMap_append, induction, Nat.one_mul, Nat.add_comm 1,
        List.flatMap_singleton, rowsOn_succ, Nat.succ_mul, List.take_add]

/-- All is settled, and no row is beyond the pages. -/
structure Sound (screen : Screen) : Prop where
  /-- The links are up to date. -/
  settled : screen.pager.Settled
  /-- No option is 0. -/
  positive : ∀ option ∈ screen.pager.perPageOptions, 0 < option
  /-- No row is left out of the count. -/
  enough : screen.monitor.resultData.length ≤ screen.pager.totalItems

theorem Sound.flatMap_rowsOn (sound : screen.Sound) :
    (List.range' 1 screen.pager.numberOfPages).flatMap screen.rowsOn =
      screen.monitor.resultData := by
  rw [Screen.flatMap_rowsOn, sound.settled.counted]
  exact List.take_of_length_le
    (sound.enough.trans (Pager.le_pagesFor_mul _ sound.settled.positive))

theorem positive_of_ends {pager ended : Pager} (ends : pager.Ends ended)
    (positive : ∀ option ∈ pager.perPageOptions, 0 < option) :
    ∀ option ∈ ended.perPageOptions, 0 < option := by
  intro option member
  rcases ends.mem_perPageOptions.mp member with known | chosen
  · exact positive option known
  · exact chosen ▸ ends.positive

theorem exists_load (pagesLength : Nat) :
    ∃ screen, load pagesLength = some screen ∧ screen.Sound ∧ screen.monitor = Monitor.init ∧
      screen.pager.pagesLength = Pager.linkPagesLength pagesLength := by
  have unseen : (Pager.init pagesLength).watched = some (Pager.init pagesLength).watch →
      (Pager.init pagesLength).Consistent := by
    intro same
    cases same
  have positive : ∀ option ∈ [10, 15, 30, 50, 100, 200, 300], 0 < option := by decide
  obtain ⟨pager, done, ends⟩ := Pager.exists_digest unseen 8
  refine ⟨⟨Monitor.init, pager⟩, ?_, ⟨ends.toSettled, positive_of_ends ends positive,
    Nat.zero_le _⟩, rfl, ends.pagesLength_eq⟩
  rw [load, done]
  rfl

/-- The links are not made again before the digest. -/
theorem beside_recount (screen : Screen) (report : Monitor.Report) :
    screen.pager.Beside (screen.recount report) := by
  rw [recount]
  split_ifs
  · exact ⟨rfl, rfl, rfl, rfl, rfl⟩
  · exact ⟨rfl, rfl, rfl, rfl, rfl⟩

/-- What an event does to the table. -/
def tableAfter (monitor : Monitor) : Event → Monitor
  | .report report => monitor.exec report
  | .act _ => monitor

theorem Sound.exec (sound : screen.Sound) (event : Event) :
    ∃ next, screen.exec event = some next ∧ next.Sound ∧
      next.monitor = tableAfter screen.monitor event ∧
        next.pager.pagesLength = screen.pager.pagesLength := by
  cases event with
  | report report =>
      have beside := screen.beside_recount report
      obtain ⟨pager, done, ends⟩ := Pager.exists_digest (sound.settled.beside beside) 8
      refine ⟨⟨screen.monitor.exec report, pager⟩, ?_, ⟨ends.toSettled, ?_, ?_⟩, rfl,
        ends.pagesLength_eq.trans beside.pagesLength_eq⟩
      · rw [Screen.exec, done]
        rfl
      · exact positive_of_ends ends (beside.perPageOptions_eq ▸ sound.positive)
      · rw [ends.totalItems_eq, recount]
        split_ifs with announced
        · exact Nat.le_refl _
        · exact (Monitor.length_exec_le (Bool.eq_false_iff.mpr announced)).trans sound.enough
  | act act =>
      obtain ⟨pager, done, ends⟩ := sound.settled.exec act
      have beside := Pager.beside_act screen.pager act
      refine ⟨⟨screen.monitor, pager⟩, ?_, ⟨ends.toSettled, ?_, ?_⟩, rfl,
        ends.pagesLength_eq.trans beside.pagesLength_eq⟩
      · rw [Screen.exec, done]
        rfl
      · exact positive_of_ends ends (beside.perPageOptions_eq ▸ sound.positive)
      · rw [ends.totalItems_eq, (Pager.act_counts screen.pager act).1]
        exact sound.enough

/-- A report makes no text of a number. -/
theorem Sound.number_of_report (sound : screen.Sound) {report : Monitor.Report} {page : Nat}
    (number : screen.pager.currentPage = .number page)
    (ran : screen.exec (.report report) = some next) :
    ∃ page, next.pager.currentPage = .number page := by
  obtain ⟨pager, done, rfl⟩ := Option.map_eq_some_iff.mp ran
  obtain ⟨ended, again, ends⟩ :=
    Pager.exists_digest (sound.settled.beside (screen.beside_recount report)) 8
  obtain rfl := Option.some_inj.mp (done.symm.trans again)
  have kept : (screen.recount report).currentPage = .number page := by
    rw [recount]
    split_ifs <;> exact number
  rw [ends.currentPage_eq]
  split_ifs
  · exact ⟨page, kept⟩
  · exact ⟨_, rfl⟩

theorem Sound.foldlM (sound : screen.Sound) (events : List Event) :
    ∃ next, events.foldlM Screen.exec screen = some next ∧ next.Sound ∧
      next.monitor = events.foldl tableAfter screen.monitor ∧
        next.pager.pagesLength = screen.pager.pagesLength := by
  induction events generalizing screen with
  | nil => exact ⟨screen, rfl, sound, rfl, rfl⟩
  | cons event events induction =>
      obtain ⟨middle, first, kept, table, length⟩ := sound.exec event
      obtain ⟨next, rest, last, tables, lengths⟩ := induction kept
      refine ⟨next, ?_, last, ?_, lengths.trans length⟩
      · rw [List.foldlM_cons, first]
        exact rest
      · rw [tables, table, List.foldl_cons]

theorem exists_run (pagesLength : Nat) (events : List Event) :
    ∃ screen, run pagesLength events = some screen ∧ screen.Sound ∧
      screen.monitor = events.foldl tableAfter Monitor.init ∧
        screen.pager.pagesLength = Pager.linkPagesLength pagesLength := by
  obtain ⟨loaded, load, sound, table, length⟩ := exists_load pagesLength
  obtain ⟨screen, done, last, tables, lengths⟩ := sound.foldlM events
  refine ⟨screen, ?_, last, table ▸ tables, lengths.trans length⟩
  rw [run, load]
  exact done

/-- Twenty-one rows, ten to a page, and the number of the first page typed again. -/
def retyping : List Event :=
  [.report (.success ⟨[], [], []⟩ (List.replicate 21 ⟨[], true, ⟨[], [], [], []⟩⟩)),
    .act (.select 10), .act (.input ['1']), .act .keyup]

end Screen

end FlashForwarder
