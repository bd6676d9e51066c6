import Mathlib.Data.List.Infix

/-!
# Looking for a text in a text

The first place where a pattern occurs.  A pattern whose first letter does not come again in it
cannot overlap itself, so that behind a text without it the first occurrence is the one put there.
-/

namespace TextSearch

variable {α : Type*} {pattern text front rest : List α} {letter : α}

/-- A pattern does not extend over a letter that is not in it. -/
theorem infix_append_cons_iff (absent : letter ∉ pattern) :
    pattern <:+: front ++ letter :: rest ↔ pattern <:+: front ∨ pattern <:+: rest := by
  constructor
  · rintro ⟨before, after, split⟩
    rw [List.append_assoc, List.append_eq_append_iff] at split
    rcases split with ⟨between, rfl, split⟩ | ⟨between, rfl, split⟩
    · rw [List.append_eq_append_iff] at split
      rcases split with ⟨behind, rfl, -⟩ | ⟨beyond, rfl, split⟩
      · exact Or.inl ⟨before, behind, by simp⟩
      · rcases List.cons_eq_append_iff.mp split with ⟨rfl, -⟩ | ⟨last, rfl, -⟩
        · exact Or.inl ⟨before, [], by simp⟩
        · exact absurd (by simp) absent
    · rcases List.cons_eq_append_iff.mp split with ⟨rfl, split⟩ | ⟨last, rfl, tail⟩
      · cases pattern with
        | nil => exact Or.inl (List.nil_infix)
        | cons first pattern =>
            obtain ⟨rfl, -⟩ := List.cons_eq_cons.mp split
            exact absurd List.mem_cons_self absent
      · exact Or.inr ⟨last, after, by rw [tail, List.append_assoc]⟩
  · rintro (inside | inside)
    · exact inside.trans (List.prefix_append _ _).isInfix
    · exact inside.trans ((List.suffix_cons _ _).trans (List.suffix_append _ _)).isInfix

variable [DecidableEq α]

/-- The first place at which `pattern` occurs. -/
def find (pattern text : List α) : Option Nat :=
  text.tails.findIdx? fun rest => pattern.isPrefixOf rest

theorem find_eq_none_iff : find pattern text = none ↔ ¬pattern <:+: text := by
  rw [find, List.findIdx?_eq_none_iff, List.infix_iff_prefix_suffix]
  simp only [List.mem_tails, Bool.eq_false_iff, ne_eq, List.isPrefixOf_iff_prefix]
  constructor
  · rintro none ⟨tail, here, suffix_⟩
    exact none tail suffix_ here
  · intro absent tail suffix_ here
    exact absent ⟨tail, here, suffix_⟩

theorem find_eq_some_iff {place : Nat} : find pattern text = some place ↔
    place ≤ text.length ∧ pattern <+: text.drop place ∧
      ∀ earlier < place, ¬pattern <+: text.drop earlier := by
  rw [find, List.findIdx?_eq_some_iff_getElem]
  simp only [List.length_tails, List.getElem_tails, List.isPrefixOf_iff_prefix, Nat.lt_succ_iff]
  constructor
  · rintro ⟨inside, here, first⟩
    exact ⟨inside, here, fun earlier less => first earlier less⟩
  · rintro ⟨inside, here, first⟩
    exact ⟨inside, here, fun earlier less => first earlier less⟩

/-- A pattern that does not overlap itself is first found where it follows a text without it. -/
theorem find_append (fresh : letter ∉ pattern) (absent : ¬letter :: pattern <:+: front)
    (rest : List α) : find (letter :: pattern) (front ++ (letter :: pattern ++ rest)) =
      some front.length := by
  rw [find_eq_some_iff]
  refine ⟨by simp, ?_, fun earlier less here => ?_⟩
  · rw [List.drop_left]
    exact List.prefix_append _ _
  · rw [List.drop_append_of_le_length less.le] at here
    by_cases long : (letter :: pattern).length ≤ (front.drop earlier).length
    · have inside := List.prefix_of_prefix_length_le here (List.prefix_append _ _) long
      exact absent (inside.isInfix.trans (List.drop_suffix earlier front).isInfix)
    · obtain ⟨kept, length⟩ : ∃ kept, (front.drop earlier).length = kept + 1 :=
        ⟨front.length - earlier - 1, by rw [List.length_drop]; omega⟩
      rw [length, List.length_cons, Nat.add_le_add_iff_right, Nat.not_le] at long
      have again := List.prefix_iff_getElem?.mp here (kept + 1) (by simpa using long)
      rw [List.getElem?_append_right length.le, length, Nat.sub_self, List.getElem_cons_succ,
        List.cons_append, List.getElem?_cons_zero, Option.some_inj] at again
      exact fresh (again ▸ List.getElem_mem long)

/-- A single letter is first found behind a text without it. -/
theorem find_letter (absent : letter ∉ front) (rest : List α) :
    find [letter] (front ++ letter :: rest) = some front.length :=
  find_append List.not_mem_nil (fun inside => absent (inside.subset (by simp))) rest

end TextSearch
