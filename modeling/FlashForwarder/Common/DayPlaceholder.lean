import Mathlib.Algebra.Group.Nat.Defs
import Mathlib.Data.List.Basic

/-!
# Placeholders for the day

`DoReplaceDayPlaceholder` cuts a text at its dollar signs and takes every other token for a name
between two of them.  A name that it does not know is put back in lower case, and the last token may
have no dollar sign behind it.
-/

namespace FlashForwarder

/-- `current_date`, whose year has four digits. -/
structure CurrentDate where
  year : Nat
  month : Nat
  day : Nat
  year_bounds : 1400 ≤ year ∧ year ≤ 9999
  month_bounds : 1 ≤ month ∧ month ≤ 12
  day_bounds : 1 ≤ day ∧ day ≤ 31

/-- `sprintf_s` of a number, filled up with zeros. -/
def digits (width base number : Nat) : List Char :=
  List.leftpad width '0' (Nat.toDigits base number)

/-- What a name in lower case stands for. -/
def placeholderText (today : CurrentDate) (token : List Char) : Option (List Char) :=
  if token = ['y', 'y', 'y', 'y', 'm', 'm', 'd', 'd'] then
    some (digits 4 10 today.year ++ digits 2 10 today.month ++ digits 2 10 today.day)
  else if token = ['y', 'y', 'm', 'm', 'd', 'd'] then
    some (digits 2 10 (today.year % 100) ++ digits 2 10 today.month ++ digits 2 10 today.day)
  else if token = ['m', 'm', 'd', 'd'] then
    some (digits 2 10 today.month ++ digits 2 10 today.day)
  else if token = ['m', 'd', 'd'] then
    some (digits 1 16 today.month ++ digits 2 10 today.day)
  else none

/-- `to_lower` -/
def toLower (token : List Char) : List Char := token.map Char.toLower

/-- A token that is taken for a name. -/
def replaceToken (today : CurrentDate) (token : List Char) : List Char :=
  match placeholderText today (toLower token) with
  | some text => text
  | none => '$' :: (toLower token ++ ['$'])

/-- The loop over the tokens, from the one of index `i` on. -/
def replaceTokens (today : CurrentDate) : Nat → List (List Char) → List Char
  | _, [] => []
  | i, token :: tokens =>
      (if i % 2 = 0 then token else replaceToken today token) ++ replaceTokens today (i + 1) tokens

/-- `DoReplaceDayPlaceholder` -/
def doReplaceDayPlaceholder (today : CurrentDate) (str : List Char) : List Char :=
  replaceTokens today 0 (str.splitOn '$')

/-! ## What it is for -/

/-- The text from a place on, with the names that stand for the day replaced; `opened` is what was
read since a dollar sign that may begin a name. -/
def substituteFrom (today : CurrentDate) : Option (List Char) → List Char → List Char
  | none, [] => []
  | none, letter :: rest =>
      if letter = '$' then substituteFrom today (some []) rest
      else letter :: substituteFrom today none rest
  | some opened, [] => '$' :: opened
  | some opened, letter :: rest =>
      if letter = '$' then
        (placeholderText today (toLower opened)).getD ('$' :: (opened ++ ['$'])) ++
          substituteFrom today none rest
      else substituteFrom today (some (opened ++ [letter])) rest

/-- The text in which each `$name$`, the dollar signs being paired from the left, is replaced if the
name stands for the day, and everything else is as it was. -/
def substituted (today : CurrentDate) (str : List Char) : List Char :=
  substituteFrom today none str

/-- The names between dollar signs, among the tokens of a text. -/
def names : List (List Char) → List (List Char)
  | _ :: name :: tokens => name :: names tokens
  | _ => []

/-- The name is one of the four, in whatever case. -/
def IsPlaceholder (name : List Char) : Prop :=
  toLower name ∈ [['y', 'y', 'y', 'y', 'm', 'm', 'd', 'd'], ['y', 'y', 'm', 'm', 'd', 'd'],
    ['m', 'm', 'd', 'd'], ['m', 'd', 'd']]

instance (name : List Char) : Decidable (IsPlaceholder name) := inferInstanceAs (Decidable (_ ∈ _))

@[simp] theorem length_toLower (token : List Char) : (toLower token).length = token.length :=
  List.length_map _

variable {today : CurrentDate} {text name rest str : List Char}

/-! ## Lengths -/

theorem length_digits {width base number : Nat} (decent : 1 < base) (positive : 0 < width)
    (small : number < base ^ width) : (digits width base number).length = width := by
  have fits := (Nat.length_toDigits_le_iff decent positive).mpr small
  rw [digits, List.length_leftpad]
  exact Nat.max_eq_left fits

theorem length_placeholderText {token shown : List Char}
    (known : placeholderText today token = some shown) : shown.length = token.length := by
  obtain ⟨-, year⟩ := today.year_bounds
  obtain ⟨-, month⟩ := today.month_bounds
  obtain ⟨-, day⟩ := today.day_bounds
  have year4 : (digits 4 10 today.year).length = 4 :=
    length_digits (by decide) (by decide) (by omega)
  have year2 : (digits 2 10 (today.year % 100)).length = 2 :=
    length_digits (by decide) (by decide) (by omega)
  have month2 : (digits 2 10 today.month).length = 2 :=
    length_digits (by decide) (by decide) (by omega)
  have month1 : (digits 1 16 today.month).length = 1 :=
    length_digits (by decide) (by decide) (by omega)
  have day2 : (digits 2 10 today.day).length = 2 :=
    length_digits (by decide) (by decide) (by omega)
  unfold placeholderText at known
  split_ifs at known with first second third fourth <;>
    · obtain rfl := Option.some_inj.mp known
      simp [*]

theorem isSome_placeholderText (today : CurrentDate) :
    (placeholderText today (toLower name)).isSome = true ↔ IsPlaceholder name := by
  unfold placeholderText IsPlaceholder
  split_ifs with first second third fourth <;> simp [*]

/-- What stands in the place of a name, and what should. -/
theorem replaceToken_eq_iff (today : CurrentDate) : replaceToken today name =
      (placeholderText today (toLower name)).getD ('$' :: (name ++ ['$'])) ↔
    IsPlaceholder name ∨ toLower name = name := by
  rw [← isSome_placeholderText today, replaceToken]
  cases known : placeholderText today (toLower name) with
  | none => simp
  | some shown => simp

theorem length_replaceToken : (replaceToken today name).length =
    ((placeholderText today (toLower name)).getD ('$' :: (name ++ ['$']))).length := by
  rw [replaceToken]
  cases placeholderText today (toLower name) with
  | none => simp
  | some shown => rfl

/-- A name without a dollar sign behind it is never put back as it was. -/
theorem replaceToken_ne : replaceToken today name ≠ '$' :: name := by
  intro same
  have length := congrArg List.length same
  rw [replaceToken] at length
  cases known : placeholderText today (toLower name) with
  | none => simp [known] at length
  | some shown =>
      have kept := length_placeholderText known
      simp [known, kept] at length

/-! ## Both, from the first dollar sign on -/

theorem replaceTokens_add_two (i : Nat) (tokens : List (List Char)) :
    replaceTokens today (i + 2) tokens = replaceTokens today i tokens := by
  induction tokens generalizing i with
  | nil => rfl
  | cons token tokens ih =>
      rw [replaceTokens, replaceTokens, Nat.add_mod_right, Nat.add_right_comm, ih]

theorem replace_plain (plain : '$' ∉ text) : doReplaceDayPlaceholder today text = text := by
  simp [doReplaceDayPlaceholder, List.splitOn_eq_singleton plain, replaceTokens]

theorem replace_open (plain : '$' ∉ text) (last : '$' ∉ rest) :
    doReplaceDayPlaceholder today (text ++ '$' :: rest) = text ++ replaceToken today rest := by
  rw [doReplaceDayPlaceholder, List.splitOn_append_cons_self_of_not_mem plain,
    List.splitOn_eq_singleton last]
  simp [replaceTokens]

theorem replace_group (plain : '$' ∉ text) (named : '$' ∉ name) (rest : List Char) :
    doReplaceDayPlaceholder today (text ++ '$' :: (name ++ '$' :: rest)) =
      text ++ (replaceToken today name ++ doReplaceDayPlaceholder today rest) := by
  rw [doReplaceDayPlaceholder, List.splitOn_append_cons_self_of_not_mem plain,
    List.splitOn_append_cons_self_of_not_mem named, replaceTokens, replaceTokens]
  have again : replaceTokens today (0 + 2) (rest.splitOn '$') =
      replaceTokens today 0 (rest.splitOn '$') := replaceTokens_add_two 0 _
  simp only [Nat.zero_mod, if_true, Nat.zero_add, Nat.reduceAdd, Nat.reduceMod, if_false,
    Nat.one_ne_zero] at again ⊢
  rw [again, doReplaceDayPlaceholder]

theorem substituteFrom_plain (plain : '$' ∉ text) (rest : List Char) :
    substituteFrom today none (text ++ rest) = text ++ substituteFrom today none rest := by
  induction text with
  | nil => rfl
  | cons letter text ih =>
      obtain ⟨other, plain⟩ : '$' ≠ letter ∧ '$' ∉ text := by simpa using plain
      rw [List.cons_append, substituteFrom, if_neg (Ne.symm other), ih plain, List.cons_append]

theorem substituteFrom_opened (named : '$' ∉ name) (opened rest : List Char) :
    substituteFrom today (some opened) (name ++ rest) =
      substituteFrom today (some (opened ++ name)) rest := by
  induction name generalizing opened with
  | nil => simp
  | cons letter name ih =>
      obtain ⟨other, named⟩ : '$' ≠ letter ∧ '$' ∉ name := by simpa using named
      rw [List.cons_append, substituteFrom, if_neg (Ne.symm other), ih named, List.append_assoc,
        List.singleton_append]

theorem substituted_plain (plain : '$' ∉ text) : substituted today text = text := by
  have same : substituteFrom today none (text ++ []) = text ++ substituteFrom today none [] :=
    substituteFrom_plain plain []
  simpa [substituted, substituteFrom] using same

theorem substituted_open (plain : '$' ∉ text) (last : '$' ∉ rest) :
    substituted today (text ++ '$' :: rest) = text ++ '$' :: rest := by
  have opened : substituteFrom today (some []) (rest ++ []) =
      substituteFrom today (some ([] ++ rest)) [] := substituteFrom_opened last [] []
  rw [List.append_nil, List.nil_append] at opened
  rw [substituted, substituteFrom_plain plain, substituteFrom, if_pos rfl, opened, substituteFrom]

theorem substituted_group (plain : '$' ∉ text) (named : '$' ∉ name) (rest : List Char) :
    substituted today (text ++ '$' :: (name ++ '$' :: rest)) =
      text ++ ((placeholderText today (toLower name)).getD ('$' :: (name ++ ['$'])) ++
        substituted today rest) := by
  rw [substituted, substituteFrom_plain plain, substituteFrom, if_pos rfl,
    substituteFrom_opened named, List.nil_append, substituteFrom, if_pos rfl, substituted]

/-- Every text has no dollar sign, or one, or two in front of another text. -/
theorem dollar_induction {motive : List Char → Prop}
    (plain : ∀ text, '$' ∉ text → motive text)
    (open_ : ∀ text rest, '$' ∉ text → '$' ∉ rest → motive (text ++ '$' :: rest))
    (group : ∀ text name rest, '$' ∉ text → '$' ∉ name → motive rest →
      motive (text ++ '$' :: (name ++ '$' :: rest))) (str : List Char) : motive str := by
  induction length : str.length using Nat.strongRecOn generalizing str with
  | _ bound ih =>
      by_cases first : '$' ∈ str
      · obtain ⟨text, rest, rfl, free⟩ := List.eq_append_cons_of_mem first
        by_cases second : '$' ∈ rest
        · obtain ⟨name, rest, rfl, named⟩ := List.eq_append_cons_of_mem second
          refine group text name rest free named (ih rest.length ?_ rest rfl)
          simp only [List.length_append, List.length_cons] at length
          omega
        · exact open_ text rest free second
      · exact plain str first

/-- A text has its placeholders replaced, and nothing else changed, just if its dollar signs are
even in number and every name between two of them is one of the four or in lower case. -/
theorem replaced_iff (today : CurrentDate) (str : List Char) :
    doReplaceDayPlaceholder today str = substituted today str ↔
      str.count '$' % 2 = 0 ∧
        ∀ name ∈ names (str.splitOn '$'), IsPlaceholder name ∨ toLower name = name := by
  induction str using dollar_induction with
  | plain text free =>
      rw [replace_plain free, substituted_plain free, List.splitOn_eq_singleton free]
      simp [List.count_eq_zero_of_not_mem free, names]
  | open_ text rest free last =>
      rw [replace_open free last, substituted_open free last, List.append_cancel_left_eq]
      refine iff_of_false replaceToken_ne fun even => ?_
      have one : (text ++ '$' :: rest).count '$' = 1 := by
        simp [List.count_eq_zero_of_not_mem free, List.count_eq_zero_of_not_mem last]
      omega
  | group text name rest free named ih =>
      have count : (text ++ '$' :: (name ++ '$' :: rest)).count '$' = rest.count '$' + 2 := by
        simp [List.count_eq_zero_of_not_mem free, List.count_eq_zero_of_not_mem named]
      rw [replace_group free named, substituted_group free named, List.append_cancel_left_eq, count,
        Nat.add_mod_right, List.splitOn_append_cons_self_of_not_mem free,
        List.splitOn_append_cons_self_of_not_mem named, names, List.forall_mem_cons,
        ← and_left_comm, ← ih, ← replaceToken_eq_iff today]
      constructor
      · intro same
        exact List.append_inj same length_replaceToken
      · rintro ⟨token, later⟩
        rw [token, later]

/-- `$F$` is not put back as it was. -/
theorem capital_not_kept :
    ¬∀ today str, doReplaceDayPlaceholder today str = substituted today str := by
  intro same
  have here := same ⟨2015, 6, 1, by decide, by decide, by decide⟩ ['$', 'F', '$']
  exact absurd here (by decide)

end FlashForwarder
