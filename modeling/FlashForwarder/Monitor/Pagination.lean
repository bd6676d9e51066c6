import FlashForwarder.Monitor.StatusTable
import Mathlib.Data.List.Sort
import Mathlib.Tactic.IntervalCases

/-!
# The pages of the table

The monitoring page shows its table in pages, with links to some of them, a box for the number of
another one and a choice of how many rows a page has.  `getPagination` runs whenever what it watches
has changed, until nothing changes any more.  The functions of the directive are translated here,
and followed over every run of reports and of what a user does.
-/

namespace FlashForwarder

/-! ## The links -/

namespace Pager

/-- `pagesLength`, made odd, of one that may be missing. -/
def linkPagesLength (pagesLength : Nat) : Nat :=
  let pagesLength := if pagesLength = 0 then 9 else pagesLength
  if pagesLength % 2 = 0 then pagesLength - 1 else pagesLength

theorem le_linkPagesLength {pagesLength : Nat} (long : pagesLength = 0 ∨ 9 ≤ pagesLength) :
    9 ≤ linkPagesLength pagesLength := by
  rcases long with rfl | long
  · decide
  · have given : pagesLength ≠ 0 := by omega
    simp only [linkPagesLength, if_neg given]
    split_ifs <;> omega

/-- `pageList`, with nothing for `'...'`. -/
def links (pagesLength numberOfPages currentPage : Nat) : List (Option Nat) :=
  if numberOfPages ≤ pagesLength then (List.range' 1 numberOfPages).map some
  else
    let offset := (pagesLength - 1) / 2
    if currentPage ≤ offset then
      (List.range' 1 (offset + 1)).map some ++ [none, some numberOfPages]
    else if numberOfPages - offset < currentPage then
      [some 1, none] ++ ((List.range' 1 (offset + 1)).reverse.map fun i => some (numberOfPages - i))
        ++ [some numberOfPages]
    else
      [some 1, none]
        ++ ((List.range' 1 ((offset + 1) / 2)).reverse.map fun i => some (currentPage - i))
        ++ [some currentPage] ++ ((List.range' 1 (offset / 2)).map fun i => some (currentPage + i))
        ++ [none, some numberOfPages]

/-- Links stand for the pages from some one to the last, where dots stand for at least one. -/
inductive Abbreviates (last : Nat) : Nat → List (Option Nat) → Prop where
  /-- No page is left. -/
  | done : Abbreviates last (last + 1) []
  /-- The next page has a link. -/
  | page {first : Nat} {items : List (Option Nat)} (rest : Abbreviates last (first + 1) items) :
      Abbreviates last first (some first :: items)
  /-- It does not, up to some page that has. -/
  | dots {first next : Nat} {items : List (Option Nat)} (skipped : first < next)
      (rest : Abbreviates last next (some next :: items)) :
      Abbreviates last first (none :: some next :: items)

variable {pagesLength numberOfPages currentPage first next count : Nat} {items : List (Option Nat)}

theorem Abbreviates.le_succ (abbreviates : Abbreviates numberOfPages first items) :
    first ≤ numberOfPages + 1 := by
  induction abbreviates with
  | done => exact Nat.le_refl _
  | page rest induction => exact Nat.le_of_succ_le induction
  | dots skipped rest induction => exact Nat.le_trans skipped.le induction

theorem Abbreviates.le_of_mem (abbreviates : Abbreviates numberOfPages first items)
    (member : some currentPage ∈ items) : first ≤ currentPage ∧ currentPage ≤ numberOfPages := by
  induction abbreviates with
  | done => cases member
  | page rest induction =>
      rcases List.mem_cons.mp member with same | later
      · cases same
        exact ⟨Nat.le_refl _, Nat.le_of_succ_le_succ rest.le_succ⟩
      · exact ⟨Nat.le_of_succ_le (induction later).1, (induction later).2⟩
  | dots skipped rest induction =>
      have later := (List.mem_cons.mp member).resolve_left (by simp)
      exact ⟨Nat.le_trans skipped.le (induction later).1, (induction later).2⟩

theorem Abbreviates.range (rest : Abbreviates numberOfPages (first + count) items) :
    Abbreviates numberOfPages first ((List.range' first count).map some ++ items) := by
  induction count generalizing first with
  | zero => exact rest
  | succ count induction =>
      rw [List.range'_succ, List.map_cons, List.cons_append]
      refine page (induction ?_)
      rwa [Nat.add_assoc, Nat.add_comm 1]

theorem Abbreviates.dots_last (skipped : first < numberOfPages) :
    Abbreviates numberOfPages first [none, some numberOfPages] := dots skipped (page done)

/-- The first page and dots are put before pages in a row. -/
theorem Abbreviates.first_dots (skipped : 2 < next) (positive : 0 < count)
    (rest : Abbreviates numberOfPages (next + count) items) :
    Abbreviates numberOfPages 1
      (some 1 :: none :: ((List.range' next count).map some ++ items)) := by
  obtain ⟨count, rfl⟩ := Nat.exists_eq_add_of_le' positive
  have row := Abbreviates.range rest
  rw [List.range'_succ] at row ⊢
  exact page (dots skipped row)

theorem not_abbreviates (close : next ≤ 2) :
    ¬Abbreviates numberOfPages 1 (some 1 :: none :: some next :: items) := by
  rintro (_ | ⟨_ | _ | ⟨skipped, _⟩⟩)
  exact absurd skipped (Nat.not_lt.mpr close)

theorem map_sub_range (le : count ≤ currentPage) :
    (List.range' 1 count).reverse.map (fun i => some (currentPage - i)) =
      (List.range' (currentPage - count) count).map some := by
  induction count with
  | zero => rfl
  | succ count induction =>
      rw [List.range'_concat, List.reverse_append, List.map_append, induction (by omega),
        List.range'_succ, List.map_cons, show currentPage - (count + 1) + 1 = currentPage - count by
          omega]
      simp [Nat.add_comm 1]

theorem map_add_range :
    (List.range' 1 count).map (fun i => some (currentPage + i)) =
      (List.range' (currentPage + 1) count).map some := by
  rw [← List.map_add_range', List.map_map]
  rfl

theorem links_of_le (le : numberOfPages ≤ pagesLength) :
    links pagesLength numberOfPages currentPage = (List.range' 1 numberOfPages).map some :=
  if_pos le

theorem links_left (lt : pagesLength < numberOfPages) (left : currentPage ≤ (pagesLength - 1) / 2) :
    links pagesLength numberOfPages currentPage =
      (List.range' 1 ((pagesLength - 1) / 2 + 1)).map some ++ [none, some numberOfPages] := by
  simp only [links, if_neg (Nat.not_le.mpr lt), if_pos left]

theorem links_right (lt : pagesLength < numberOfPages) (left : (pagesLength - 1) / 2 < currentPage)
    (right : numberOfPages - (pagesLength - 1) / 2 < currentPage) :
    links pagesLength numberOfPages currentPage =
      some 1 :: none ::
        ((List.range' (numberOfPages - ((pagesLength - 1) / 2 + 1))
          ((pagesLength - 1) / 2 + 1)).map some ++ [some numberOfPages]) := by
  simp only [links, if_neg (Nat.not_le.mpr lt), if_neg (Nat.not_le.mpr left), if_pos right]
  rw [map_sub_range (by omega)]
  rfl

theorem links_middle (lt : pagesLength < numberOfPages) (left : (pagesLength - 1) / 2 < currentPage)
    (right : currentPage ≤ numberOfPages - (pagesLength - 1) / 2) :
    links pagesLength numberOfPages currentPage =
      some 1 :: none ::
        ((List.range' (currentPage - ((pagesLength - 1) / 2 + 1) / 2)
          (((pagesLength - 1) / 2 + 1) / 2)).map some ++
          (some currentPage ::
            ((List.range' (currentPage + 1) ((pagesLength - 1) / 2 / 2)).map some ++
              [none, some numberOfPages]))) := by
  simp only [links, if_neg (Nat.not_le.mpr lt), if_neg (Nat.not_le.mpr left),
    if_neg (Nat.not_lt.mpr right)]
  rw [map_sub_range (by omega), map_add_range]
  simp

/-- With nine links or more there are always pages behind the dots. -/
theorem abbreviates_links (long : 9 ≤ pagesLength) (numberOfPages currentPage : Nat) :
    Abbreviates numberOfPages 1 (links pagesLength numberOfPages currentPage) := by
  rcases Nat.lt_or_ge pagesLength numberOfPages with lt | le
  · rcases Nat.lt_or_ge ((pagesLength - 1) / 2) currentPage with left | left
    · rcases Nat.lt_or_ge (numberOfPages - (pagesLength - 1) / 2) currentPage with right | right
      · rw [links_right lt left right]
        refine Abbreviates.first_dots (by omega) (Nat.succ_pos _) ?_
        rw [Nat.sub_add_cancel (by omega)]
        exact Abbreviates.page Abbreviates.done
      · rw [links_middle lt left right]
        refine Abbreviates.first_dots (by omega) (by omega) ?_
        rw [Nat.sub_add_cancel (by omega)]
        exact Abbreviates.page (Abbreviates.range (Abbreviates.dots_last (by omega)))
    · rw [links_left lt left]
      exact Abbreviates.range (Abbreviates.dots_last (by omega))
  · have nothing : Abbreviates numberOfPages (1 + numberOfPages) [] := by
      rw [Nat.add_comm]
      exact Abbreviates.done
    have row := Abbreviates.range nothing
    rwa [List.append_nil, ← links_of_le le] at row

theorem mem_links (positive : 1 ≤ currentPage) (le : currentPage ≤ numberOfPages) :
    some currentPage ∈ links pagesLength numberOfPages currentPage := by
  rcases Nat.lt_or_ge pagesLength numberOfPages with lt | few
  · rcases Nat.lt_or_ge ((pagesLength - 1) / 2) currentPage with left | left
    · rcases Nat.lt_or_ge (numberOfPages - (pagesLength - 1) / 2) currentPage with right | right
      · rw [links_right lt left right]
        rcases Nat.lt_or_eq_of_le le with before | rfl
        · have row : currentPage ∈ List.range' (numberOfPages - ((pagesLength - 1) / 2 + 1))
              ((pagesLength - 1) / 2 + 1) := List.mem_range'_1.mpr (by omega)
          exact List.mem_cons_of_mem _
            (List.mem_cons_of_mem _ (List.mem_append_left _ (List.mem_map_of_mem row)))
        · simp
      · rw [links_middle lt left right]
        simp
    · have row : currentPage ∈ List.range' 1 ((pagesLength - 1) / 2 + 1) :=
        List.mem_range'_1.mpr (by omega)
      rw [links_left lt left]
      exact List.mem_append_left _ (List.mem_map_of_mem row)
  · rw [links_of_le few]
    exact List.mem_map_of_mem (List.mem_range'_1.mpr (by omega))

/-- The links stand for all pages, whichever is the current one, if there may be nine of them or
more; with fewer, dots may stand for nothing. -/
theorem links_abbreviate_iff (pagesLength : Nat) :
    (∀ numberOfPages currentPage, 1 ≤ currentPage → currentPage ≤ numberOfPages →
        Abbreviates numberOfPages 1 (links pagesLength numberOfPages currentPage) ∧
          some currentPage ∈ links pagesLength numberOfPages currentPage) ↔
      9 ≤ pagesLength := by
  constructor
  · intro every
    by_contra short
    rw [Nat.not_le] at short
    have between := (every (2 * ((pagesLength - 1) / 2) + 3) ((pagesLength - 1) / 2 + 1)
      (Nat.le_add_left ..) (by omega)).1
    interval_cases pagesLength
    all_goals exact not_abbreviates (by decide) between
  · intro long numberOfPages currentPage positive le
    exact ⟨abbreviates_links long _ _, mem_links positive le⟩

example : links 9 20 10 =
    [some 1, none, some 8, some 9, some 10, some 11, some 12, none, some 20] := by decide

end Pager

/-! ## The directive -/

/-- A number of a page, as a number or as a user has typed it. -/
inductive PageNum where
  /-- A number. -/
  | number (page : Nat)
  /-- A text. -/
  | text (digits : List Char)

/-- Its value, which is what `parseInt` makes of it if all of a text is digits. -/
def PageNum.value : PageNum → Nat
  | number page => page
  | text digits => Nat.ofDigitChars 10 digits 0

/-- How it is written. -/
def PageNum.shown : PageNum → List Char
  | number page => Nat.toDigits 10 page
  | text digits => digits

/-- `currentPage + 1`, which is put behind a text. -/
def PageNum.increment : PageNum → PageNum
  | .number page => .number (page + 1)
  | .text digits => .text (digits ++ ['1'])

theorem PageNum.value_eq (page : PageNum) : page.value = Nat.ofDigitChars 10 page.shown 0 := by
  cases page with
  | number page => exact Nat.ofDigitChars_ten_toDigits.symm
  | text digits => rfl

theorem PageNum.value_increment_text (digits : List Char) :
    (PageNum.text digits).increment.value = 10 * (PageNum.text digits).value + 1 := by
  rw [increment, value, value, Nat.ofDigitChars_append, Nat.ofDigitChars_cons,
    Nat.ofDigitChars_nil]
  rfl

/-- The scope of the directive with its `conf`. -/
structure Pager where
  /-- `conf.pagesLength` -/
  pagesLength : Nat
  /-- `conf.currentPage` -/
  currentPage : PageNum
  /-- `conf.totalItems` -/
  totalItems : Nat
  /-- `conf.itemsPerPage` -/
  itemsPerPage : Nat
  /-- `conf.perPageOptions` -/
  perPageOptions : List Nat
  /-- `conf.numberOfPages` -/
  numberOfPages : Nat
  /-- `jumpPageNum` -/
  jumpPageNum : PageNum
  /-- `pageList` -/
  pageList : List (Option Nat)
  /-- What the watched string was made of when it was last looked at. -/
  watched : Option (List Char × Nat × Nat)

namespace Pager

/-- What the controller sets, with any `pagesLength`; it sets 50. -/
def init (pagesLength : Nat) : Pager where
  pagesLength := linkPagesLength pagesLength
  currentPage := .number 1
  totalItems := 0
  itemsPerPage := 50
  perPageOptions := [10, 15, 30, 50, 100, 200, 300]
  numberOfPages := 0
  jumpPageNum := .text []
  pageList := []
  watched := none

/-- `Math.ceil(totalItems / itemsPerPage)` -/
def pagesFor (totalItems itemsPerPage : Nat) : Nat := (totalItems + itemsPerPage - 1) / itemsPerPage

/-- The current page, of one that may be missing or out of range. -/
def clampPage (numberOfPages page : Nat) : Nat :=
  let page := if page = 0 then 1 else page
  let page := if page < 1 then 1 else page
  if numberOfPages < page then numberOfPages else page

variable (pager : Pager)

/-- `getPagination` -/
def getPagination : Pager :=
  let itemsPerPage := if pager.itemsPerPage = 0 then 15 else pager.itemsPerPage
  let numberOfPages := pagesFor pager.totalItems itemsPerPage
  let currentPage := clampPage numberOfPages pager.currentPage.value
  let perPageOptions :=
    if itemsPerPage ∈ pager.perPageOptions then pager.perPageOptions
    else pager.perPageOptions ++ [itemsPerPage]
  { pager with
    currentPage := .number currentPage
    itemsPerPage := itemsPerPage
    numberOfPages := numberOfPages
    jumpPageNum := .number currentPage
    perPageOptions := perPageOptions.insertionSort (· ≤ ·)
    pageList := links pager.pagesLength numberOfPages currentPage }

/-- What the watched string is made of; a blank stands between the parts, and `orderBy` and `query`
stay as they are. -/
def watch : List Char × Nat × Nat := (pager.currentPage.shown, pager.totalItems, pager.itemsPerPage)

/-- The string has changed. -/
def listen : Pager := { pager with watched := some pager.watch }.getPagination

/-- The passes of a digest, until nothing has changed; after too many it fails. -/
def digest (pager : Pager) : Nat → Option Pager
  | 0 => if pager.watched = some pager.watch then some pager else none
  | passes + 1 =>
      if pager.watched = some pager.watch then some pager else digest pager.listen passes

/-- `prevPage` -/
def prevPage : Pager :=
  if 1 < pager.currentPage.value then
    { pager with currentPage := .number (pager.currentPage.value - 1) }
  else pager

/-- `nextPage` -/
def nextPage : Pager :=
  if pager.currentPage.value < pager.numberOfPages then
    { pager with currentPage := PageNum.increment pager.currentPage }
  else pager

/-- `changeCurrentPage` -/
def changeCurrentPage : Option Nat → Pager
  | none => pager
  | some page => { pager with currentPage := .number page }

/-- `jumpToPage`; a number has no `replace`, and the error changes nothing. -/
def jumpToPage : Pager :=
  match pager.jumpPageNum with
  | .number _ => pager
  | .text typed =>
      let digits := typed.filter Char.isDigit
      if digits = [] then { pager with jumpPageNum := .text digits }
      else { pager with jumpPageNum := .text digits, currentPage := .text digits }

/-- What a user does. -/
inductive Act where
  /-- A click on the link to the previous page. -/
  | previous
  /-- A click on the link to the next one. -/
  | next
  /-- A click on another link. -/
  | link (item : Option Nat)
  /-- Another text is typed in the box. -/
  | input (typed : List Char)
  /-- A key is up again in the box. -/
  | keyup
  /-- Another number of rows is chosen. -/
  | select (itemsPerPage : Nat)

/-- What runs on it, before the digest. -/
def act : Act → Pager
  | .previous => pager.prevPage
  | .next => pager.nextPage
  | .link item => pager.changeCurrentPage item
  | .input typed => { pager with jumpPageNum := .text typed }
  | .keyup => pager.jumpToPage
  | .select itemsPerPage => { pager with itemsPerPage := itemsPerPage }

/-! ## What a digest ends with -/

/-- All that is shown fits together. -/
structure Consistent : Prop where
  /-- There are rows on a page. -/
  positive : 0 < pager.itemsPerPage
  /-- Their number is among those to choose from. -/
  offered : pager.itemsPerPage ∈ pager.perPageOptions
  /-- The pages are counted. -/
  counted : pager.numberOfPages = pagesFor pager.totalItems pager.itemsPerPage
  /-- The current one is in range. -/
  inRange : clampPage pager.numberOfPages pager.currentPage.value = pager.currentPage.value
  /-- It is written as a number is. -/
  plain : pager.currentPage.shown = Nat.toDigits 10 pager.currentPage.value
  /-- The links are those around it. -/
  linked : pager.pageList = links pager.pagesLength pager.numberOfPages pager.currentPage.value

/-- Nothing has changed since. -/
structure Settled : Prop extends pager.Consistent where
  /-- The string is the one that was looked at. -/
  looked : pager.watched = some pager.watch

variable {pager} {next : Pager} {page numberOfPages : Nat}

theorem clampPage_eq (numberOfPages page : Nat) :
    clampPage numberOfPages page = min (max 1 page) numberOfPages := by
  simp only [clampPage]
  split_ifs <;> omega

theorem clampPage_idem (numberOfPages page : Nat) :
    clampPage numberOfPages (clampPage numberOfPages page) = clampPage numberOfPages page := by
  simp only [clampPage_eq]
  omega

theorem le_pagesFor_mul (totalItems : Nat) {itemsPerPage : Nat} (positive : 0 < itemsPerPage) :
    totalItems ≤ pagesFor totalItems itemsPerPage * itemsPerPage := by
  have quotient : totalItems + itemsPerPage - 1 <
      (totalItems + itemsPerPage - 1) / itemsPerPage * itemsPerPage + itemsPerPage :=
    Nat.lt_div_mul_add positive
  rw [pagesFor]
  omega

theorem pagesFor_eq_zero_iff {totalItems itemsPerPage : Nat} (positive : 0 < itemsPerPage) :
    pagesFor totalItems itemsPerPage = 0 ↔ totalItems = 0 := by
  rw [pagesFor, Nat.div_eq_zero_iff]
  omega

/-- A page in range is one of the pages, or there are none and it is 0. -/
theorem clampPage_eq_self_iff :
    clampPage numberOfPages page = page ↔
      1 ≤ page ∧ page ≤ numberOfPages ∨ page = 0 ∧ numberOfPages = 0 := by
  rw [clampPage_eq]
  omega

theorem Consistent.current (consistent : pager.Consistent) :
    1 ≤ pager.currentPage.value ∧ pager.currentPage.value ≤ pager.numberOfPages ∨
      pager.currentPage.value = 0 ∧ pager.numberOfPages = 0 :=
  clampPage_eq_self_iff.mp consistent.inRange

/-- What is not among the options is put behind them. -/
theorem mem_offer_iff {option offered : Nat} {options : List Nat} :
    (option ∈ if offered ∈ options then options else options ++ [offered]) ↔
      option ∈ options ∨ option = offered := by
  split_ifs with known
  · exact (or_iff_left_of_imp (· ▸ known)).symm
  · rw [List.mem_append, List.mem_singleton]

/-- The options are those there were and the chosen one. -/
theorem mem_listen {option : Nat} :
    option ∈ pager.listen.perPageOptions ↔
      option ∈ pager.perPageOptions ∨ option = pager.listen.itemsPerPage :=
  (List.perm_insertionSort _ _).mem_iff.trans mem_offer_iff

theorem Consistent.abbreviates (consistent : pager.Consistent) (long : 9 ≤ pager.pagesLength) :
    Abbreviates pager.numberOfPages 1 pager.pageList :=
  consistent.linked ▸ abbreviates_links long _ _

theorem consistent_getPagination (pager : Pager) : pager.getPagination.Consistent where
  positive := by
    simp only [getPagination]
    split_ifs <;> omega
  offered := (List.perm_insertionSort _ _).mem_iff.mpr (mem_offer_iff.mpr (Or.inr rfl))
  counted := rfl
  inRange := clampPage_idem _ _
  plain := rfl
  linked := rfl

theorem consistent_listen (pager : Pager) : pager.listen.Consistent := consistent_getPagination _

/-- When the links are made again nothing of the string changes. -/
theorem Consistent.watch_listen (consistent : pager.Consistent) :
    pager.listen.watch = pager.watch := by
  have items : pager.listen.itemsPerPage = pager.itemsPerPage := if_neg consistent.positive.ne'
  have shown : pager.listen.currentPage = .number pager.currentPage.value := by
    change PageNum.number (clampPage (pagesFor pager.totalItems pager.listen.itemsPerPage) _) = _
    rw [items, ← consistent.counted, consistent.inRange]
  rw [watch, watch, items, shown, consistent.plain]
  rfl

/-- A pager and what its digest ends with. -/
structure Ends (pager next : Pager) : Prop extends next.Settled where
  /-- `pagesLength` -/
  pagesLength_eq : next.pagesLength = pager.pagesLength
  /-- `totalItems` -/
  totalItems_eq : next.totalItems = pager.totalItems
  /-- `itemsPerPage` -/
  itemsPerPage_eq : next.itemsPerPage = if pager.itemsPerPage = 0 then 15 else pager.itemsPerPage
  /-- `currentPage`, which is a number unless nothing was seen to change. -/
  currentPage_eq :
    next.currentPage = if pager.watched = some pager.watch then pager.currentPage
      else .number (clampPage next.numberOfPages pager.currentPage.value)
  /-- `perPageOptions` -/
  mem_perPageOptions {option : Nat} :
    option ∈ next.perPageOptions ↔ option ∈ pager.perPageOptions ∨ option = next.itemsPerPage

theorem Ends.value_eq (ends : pager.Ends next) :
    next.currentPage.value = clampPage next.numberOfPages pager.currentPage.value := by
  have current := ends.currentPage_eq
  split_ifs at current with same
  · rw [← current, ends.inRange]
  · rw [current, PageNum.value]

theorem Settled.ends (settled : pager.Settled) : pager.Ends pager where
  toSettled := settled
  pagesLength_eq := rfl
  totalItems_eq := rfl
  itemsPerPage_eq := (if_neg settled.positive.ne').symm
  currentPage_eq := (if_pos settled.looked).symm
  mem_perPageOptions := (or_iff_left_of_imp (· ▸ settled.offered)).symm

/-- The digest ends after three passes or fewer, if what nobody has looked at fits together. -/
theorem exists_digest (unchanged : pager.watched = some pager.watch → pager.Consistent)
    (passes : Nat) : ∃ next, pager.digest (passes + 2) = some next ∧ pager.Ends next := by
  by_cases same : pager.watched = some pager.watch
  · exact ⟨pager, if_pos same, Settled.ends ⟨unchanged same, same⟩⟩
  rw [digest, if_neg same]
  have first := consistent_listen pager
  by_cases again : pager.listen.watched = some pager.listen.watch
  · exact ⟨pager.listen, if_pos again, ⟨first, again⟩, rfl, rfl, rfl, (if_neg same).symm,
      mem_listen⟩
  rw [digest, if_neg again]
  have second := consistent_listen pager.listen
  have looked : pager.listen.listen.watched = some pager.listen.listen.watch := by
    rw [first.watch_listen]
    rfl
  have items : pager.listen.listen.itemsPerPage = pager.listen.itemsPerPage :=
    if_neg first.positive.ne'
  have pages : pager.listen.listen.numberOfPages = pager.listen.numberOfPages :=
    congrArg (pagesFor pager.totalItems) items
  have current : pager.listen.listen.currentPage =
      .number (clampPage pager.listen.listen.numberOfPages pager.currentPage.value) := by
    change PageNum.number (clampPage pager.listen.listen.numberOfPages
      (clampPage pager.listen.numberOfPages pager.currentPage.value)) = _
    rw [pages, clampPage_idem]
  have options {option : Nat} : option ∈ pager.listen.listen.perPageOptions ↔
      option ∈ pager.perPageOptions ∨ option = pager.listen.listen.itemsPerPage := by
    rw [mem_listen, mem_listen, items, or_assoc, or_self]
  refine ⟨pager.listen.listen, ?_, ⟨second, looked⟩, rfl, rfl, items,
    current.trans (if_neg same).symm, options⟩
  cases passes with
  | zero => exact if_pos looked
  | succ passes => exact if_pos looked

/-! ## What a user does -/

/-- A pager and another whose links were not made again. -/
structure Beside (pager other : Pager) : Prop where
  /-- `pagesLength` -/
  pagesLength_eq : other.pagesLength = pager.pagesLength
  /-- `perPageOptions` -/
  perPageOptions_eq : other.perPageOptions = pager.perPageOptions
  /-- `numberOfPages` -/
  numberOfPages_eq : other.numberOfPages = pager.numberOfPages
  /-- `pageList` -/
  pageList_eq : other.pageList = pager.pageList
  /-- What was looked at. -/
  watched_eq : other.watched = pager.watched

variable {other : Pager}

/-- Nothing that is not looked at has to fit again. -/
theorem Settled.beside (settled : pager.Settled) (beside : pager.Beside other)
    (same : other.watched = some other.watch) : other.Consistent := by
  have watches : other.watch = pager.watch := by
    rw [beside.watched_eq, settled.looked] at same
    exact (Option.some.inj same).symm
  have shown : other.currentPage.shown = pager.currentPage.shown := congrArg (·.1) watches
  have total : other.totalItems = pager.totalItems := congrArg (·.2.1) watches
  have items : other.itemsPerPage = pager.itemsPerPage := congrArg (·.2.2) watches
  have value : other.currentPage.value = pager.currentPage.value := by
    rw [PageNum.value_eq, shown, ← PageNum.value_eq]
  constructor
  · exact items ▸ settled.positive
  · rw [items, beside.perPageOptions_eq]
    exact settled.offered
  · rw [beside.numberOfPages_eq, total, items, settled.counted]
  · rw [beside.numberOfPages_eq, value, settled.inRange]
  · rw [shown, value, settled.plain]
  · rw [beside.pageList_eq, beside.pagesLength_eq, beside.numberOfPages_eq, value, settled.linked]

theorem beside_act (pager : Pager) (act : Act) : pager.Beside (pager.act act) := by
  have refl : pager.Beside pager := ⟨rfl, rfl, rfl, rfl, rfl⟩
  cases act with
  | previous =>
      simp only [Pager.act, prevPage]
      split_ifs
      · exact ⟨rfl, rfl, rfl, rfl, rfl⟩
      · exact refl
  | next =>
      simp only [Pager.act, nextPage]
      split_ifs
      · exact ⟨rfl, rfl, rfl, rfl, rfl⟩
      · exact refl
  | link item =>
      cases item with
      | none => exact refl
      | some page => exact ⟨rfl, rfl, rfl, rfl, rfl⟩
  | input typed => exact ⟨rfl, rfl, rfl, rfl, rfl⟩
  | keyup =>
      simp only [Pager.act, jumpToPage]
      split
      · exact refl
      · split_ifs
        · exact ⟨rfl, rfl, rfl, rfl, rfl⟩
        · exact ⟨rfl, rfl, rfl, rfl, rfl⟩
  | select itemsPerPage => exact ⟨rfl, rfl, rfl, rfl, rfl⟩

/-- The handlers, in what is digested when they are done. -/
def exec (pager : Pager) (act : Act) : Option Pager := (pager.act act).digest 10

theorem Settled.exec (settled : pager.Settled) (act : Act) :
    ∃ next, pager.exec act = some next ∧ (pager.act act).Ends next :=
  exists_digest (settled.beside (beside_act pager act)) 8

/-- What a user can do: a link or an option has to be there. -/
def Offers (pager : Pager) : Act → Prop
  | .link item => item ∈ pager.pageList
  | .select itemsPerPage => itemsPerPage ∈ pager.perPageOptions
  | _ => True

/-- The page that a user gets to. -/
def destination (pager : Pager) : Act → Nat
  | .previous => if 1 < pager.currentPage.value then pager.currentPage.value - 1
      else pager.currentPage.value
  | .next =>
      match pager.currentPage with
      | .number page => min (page + 1) pager.numberOfPages
      | .text _ => min (10 * pager.currentPage.value + 1) pager.numberOfPages
  | .link (some page) => page
  | .link none | .input _ => pager.currentPage.value
  | .keyup =>
      match pager.jumpPageNum with
      | .number _ => pager.currentPage.value
      | .text typed =>
          if typed.filter Char.isDigit = [] then pager.currentPage.value
          else min (max 1 (Nat.ofDigitChars 10 (typed.filter Char.isDigit) 0)) pager.numberOfPages
  | .select itemsPerPage => min pager.currentPage.value (pagesFor pager.totalItems itemsPerPage)

/-- The items stay, and so do those on a page unless others are chosen. -/
theorem act_counts (pager : Pager) (act : Act) :
    (pager.act act).totalItems = pager.totalItems ∧
      (pager.act act).itemsPerPage =
        match act with
        | .select itemsPerPage => itemsPerPage
        | _ => pager.itemsPerPage := by
  cases act with
  | previous =>
      simp only [Pager.act, prevPage]
      split_ifs <;> exact ⟨rfl, rfl⟩
  | next =>
      simp only [Pager.act, nextPage]
      split_ifs <;> exact ⟨rfl, rfl⟩
  | link item => cases item <;> exact ⟨rfl, rfl⟩
  | input typed => exact ⟨rfl, rfl⟩
  | keyup =>
      simp only [Pager.act, jumpToPage]
      split
      · exact ⟨rfl, rfl⟩
      · split_ifs <;> exact ⟨rfl, rfl⟩
  | select itemsPerPage => exact ⟨rfl, rfl⟩

theorem Settled.numberOfPages_eq (settled : pager.Settled) (ends : other.Ends next)
    (total : other.totalItems = pager.totalItems)
    (items : other.itemsPerPage = pager.itemsPerPage) :
    next.numberOfPages = pager.numberOfPages := by
  rw [ends.counted, ends.totalItems_eq, ends.itemsPerPage_eq, total, items,
    if_neg settled.positive.ne', ← settled.counted]

theorem value_nextPage (pager : Pager) :
    pager.nextPage.currentPage.value =
      if pager.currentPage.value < pager.numberOfPages then pager.currentPage.increment.value
      else pager.currentPage.value := by
  rw [nextPage]
  split_ifs <;> rfl

theorem Settled.destination (settled : pager.Settled) (long : 9 ≤ pager.pagesLength) {act : Act}
    (offers : pager.Offers act) (positive : ∀ option ∈ pager.perPageOptions, 0 < option)
    (ran : pager.exec act = some next) : next.currentPage.value = pager.destination act := by
  obtain ⟨next, done, ends⟩ := settled.exec act
  cases ran.symm.trans done
  obtain ⟨total, items⟩ := act_counts pager act
  have current := settled.current
  have pages := settled.numberOfPages_eq ends total
  rw [ends.value_eq, clampPage_eq]
  cases act with
  | previous =>
      rw [pages items]
      simp only [Pager.act, prevPage, Pager.destination]
      split_ifs with before
      · rw [PageNum.value]
        omega
      · omega
  | next =>
      rw [pages items]
      change min (max 1 pager.nextPage.currentPage.value) _ = _
      rw [value_nextPage, Pager.destination]
      cases known : pager.currentPage with
      | number page =>
          rw [known, PageNum.value] at current
          rw [PageNum.value, PageNum.increment, PageNum.value]
          split_ifs <;> dsimp only <;> omega
      | text digits =>
          rw [known] at current
          rw [PageNum.value_increment_text]
          split_ifs <;> dsimp only <;> omega
  | link item =>
      rw [pages items]
      cases item with
      | none =>
          change min (max 1 pager.currentPage.value) pager.numberOfPages = pager.currentPage.value
          omega
      | some page =>
          have range := (settled.abbreviates long).le_of_mem offers
          change min (max 1 page) pager.numberOfPages = page
          omega
  | input typed =>
      rw [pages items]
      change min (max 1 pager.currentPage.value) pager.numberOfPages = pager.currentPage.value
      omega
  | keyup =>
      rw [pages items]
      simp only [Pager.act, jumpToPage, Pager.destination]
      cases pager.jumpPageNum with
      | number page =>
          dsimp only
          omega
      | text typed =>
          dsimp only
          split_ifs with blank
          · dsimp only
            omega
          · rfl
  | select itemsPerPage =>
      have chosen := positive itemsPerPage offers
      have counted : next.numberOfPages = pagesFor pager.totalItems itemsPerPage := by
        rw [ends.counted, ends.totalItems_eq, total, ends.itemsPerPage_eq, items]
        rw [if_neg chosen.ne']
      rw [counted]
      change min (max 1 pager.currentPage.value) _ = min pager.currentPage.value _
      rcases current with range | ⟨none, empty⟩
      · rw [max_eq_right range.1]
      · have pages := (pagesFor_eq_zero_iff settled.positive).mp (settled.counted.symm.trans empty)
        rw [(pagesFor_eq_zero_iff chosen).mpr pages, Nat.min_zero, Nat.min_zero]

/-- Whether a user types the number of the current page again. -/
def Retypes (pager : Pager) (act : Act) : Prop :=
  act = .keyup ∧ ∃ typed, pager.jumpPageNum = .text typed ∧
    typed.filter Char.isDigit = Nat.toDigits 10 pager.currentPage.value

theorem act_text_iff (number : pager.currentPage = .number page) {act : Act}
    {digits : List Char} :
    (pager.act act).currentPage = .text digits ↔
      act = .keyup ∧ digits ≠ [] ∧
        ∃ typed, pager.jumpPageNum = .text typed ∧ typed.filter Char.isDigit = digits := by
  cases act with
  | previous =>
      simp only [Pager.act, prevPage]
      split_ifs <;> simp [number]
  | next =>
      simp only [Pager.act, nextPage]
      split_ifs <;> simp [number, PageNum.increment]
  | link item => cases item <;> simp [Pager.act, changeCurrentPage, number]
  | input typed => simp [Pager.act, number]
  | keyup =>
      simp only [Pager.act, jumpToPage]
      cases pager.jumpPageNum with
      | number box => simp [number]
      | text typed =>
          dsimp only
          split_ifs with blank
          · simp [number, blank]
          · simp only [PageNum.text.injEq, true_and, exists_eq_left']
            constructor
            · rintro rfl
              exact ⟨blank, rfl⟩
            · exact And.right
  | select itemsPerPage => simp [Pager.act, number]

/-- Only then does the current page become a text that stays. -/
theorem Settled.text_iff (settled : pager.Settled) (number : pager.currentPage = .number page)
    {act : Act} (ran : pager.exec act = some next) :
    (∃ digits, next.currentPage = .text digits) ↔ pager.Retypes act := by
  obtain ⟨next, done, ends⟩ := settled.exec act
  cases ran.symm.trans done
  rw [ends.currentPage_eq, (beside_act pager act).watched_eq, settled.looked]
  constructor
  · rintro ⟨digits, text⟩
    split_ifs at text with same
    obtain ⟨keyup, -, typed, box, kept⟩ := (act_text_iff number).mp text
    have shown := congrArg (·.1) (Option.some.inj same)
    simp only [watch, text, settled.plain] at shown
    exact ⟨keyup, typed, box, kept.trans shown.symm⟩
  · rintro ⟨rfl, typed, box, kept⟩
    have text := (act_text_iff number).mpr ⟨rfl, Nat.toDigits_ne_nil, typed, box, kept⟩
    obtain ⟨total, items⟩ := act_counts pager .keyup
    have same : pager.watch = (pager.act .keyup).watch := by
      rw [watch, watch, text, total, items, settled.plain]
      rfl
    exact ⟨_, (if_pos (congrArg some same)).trans text⟩

end Pager

end FlashForwarder
