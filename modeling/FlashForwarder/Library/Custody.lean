import FlashForwarder.Library.Traced
import Mathlib.Data.Finset.Basic
import Mathlib.Data.Finset.Insert

/-!
# Custody

A program takes things of several kinds from elsewhere, uses them and gives them back.  At any time
it may hold one of each kind.  `Leads` follows what is held along what was recorded, and fails where
a thing is taken over another, or used or given back while none is held.
-/

namespace Custody

/-- What is done with a thing of a kind. -/
inductive Dealing (κ : Type) where
  | take (kind : κ)
  | use (kind : κ)
  | release (kind : κ)

variable {κ : Type} [DecidableEq κ]

/-- What is held afterwards. -/
def deal (held : Finset κ) : Dealing κ → Option (Finset κ)
  | .take kind => if kind ∈ held then none else some (insert kind held)
  | .use kind => if kind ∈ held then some held else none
  | .release kind => if kind ∈ held then some (held.erase kind) else none

/-- The dealings are in order, and lead from what is held before to what is held after. -/
def Leads (dealings : List (Dealing κ)) (before after : Finset κ) : Prop :=
  dealings.foldlM deal before = some after

variable {dealings front back : List (Dealing κ)} {before between after : Finset κ} {kind : κ}

theorem Leads.nil (held : Finset κ) : Leads [] held held := rfl

theorem Leads.append (first : Leads front before between) (second : Leads back between after) :
    Leads (front ++ back) before after := by
  rw [Leads, List.foldlM_append]
  exact (congrArg (· >>= _) first).trans second

theorem Leads.take (free : kind ∉ before) : Leads [.take kind] before (insert kind before) := by
  simp [Leads, deal, free]

theorem Leads.use (held : kind ∈ before) : Leads [.use kind] before before := by
  simp [Leads, deal, held]

theorem Leads.release (held : kind ∈ before) :
    Leads [.release kind] before (before.erase kind) := by
  simp [Leads, deal, held]

/-- How many things of a kind are held. -/
def holding (kind : κ) (held : Finset κ) : Nat := if kind ∈ held then 1 else 0

/-- Whether a thing of a kind is taken. -/
def takes (kind : κ) : Dealing κ → Bool
  | .take other => other = kind
  | _ => false

/-- Whether it is given back. -/
def releases (kind : κ) : Dealing κ → Bool
  | .release other => other = kind
  | _ => false

theorem balance_deal {dealing : Dealing κ} (dealt : deal before dealing = some after) (kind : κ) :
    holding kind before + (if takes kind dealing then 1 else 0) =
      (if releases kind dealing then 1 else 0) + holding kind after := by
  cases dealing with
  | take other =>
      by_cases held : other ∈ before
      · simp [deal, held] at dealt
      · obtain rfl : insert other before = after := by simpa [deal, held] using dealt
        by_cases same : other = kind
        · subst same
          simp [holding, takes, releases, held]
        · simp [holding, takes, releases, same, Ne.symm same]
  | use other =>
      by_cases held : other ∈ before
      · obtain rfl : before = after := by simpa [deal, held] using dealt
        simp [takes, releases]
      · simp [deal, held] at dealt
  | release other =>
      by_cases held : other ∈ before
      · obtain rfl : before.erase other = after := by simpa [deal, held] using dealt
        by_cases same : other = kind
        · subst same
          simp [holding, takes, releases, held]
        · simp [holding, takes, releases, same, Ne.symm same]
      · simp [deal, held] at dealt

/-- What was taken was given back, but for what is held. -/
theorem Leads.balance (leads : Leads dealings before after) (kind : κ) :
    holding kind before + dealings.countP (takes kind) =
      dealings.countP (releases kind) + holding kind after := by
  induction dealings generalizing before with
  | nil =>
      obtain rfl : before = after := Option.some_inj.mp leads
      rw [List.countP_nil, List.countP_nil, Nat.zero_add, Nat.add_zero]
  | cons dealing dealings induction =>
      obtain ⟨between, dealt, rest⟩ := Option.bind_eq_some_iff.mp leads
      have here := balance_deal dealt kind
      have later := induction rest
      rw [List.countP_cons, List.countP_cons]
      omega

/-! ## Computations -/

open Traced

variable {α β : Type} {computation : Traced (Dealing κ) α}

/-- A computation has its dealings in order, also where it does not end, and what it holds at its
end is told by its result. -/
structure Accounts (computation : Traced (Dealing κ) α) (before : Finset κ) (held : α → Finset κ) :
    Prop where
  /-- The dealings are in order. -/
  ordered : ∃ after, Leads computation.events before after
  /-- What is held. -/
  ended : ∀ value, computation.outcome = some value → Leads computation.events before (held value)

variable {held : α → Finset κ} {final : β → Finset κ}

theorem Accounts.pure {value : α} (same : held value = before) :
    Accounts (Pure.pure value : Traced (Dealing κ) α) before held where
  ordered := ⟨before, .nil before⟩
  ended := by
    rintro _ ⟨⟩
    rw [same]
    exact .nil before

theorem Accounts.undefined : Accounts (undefined : Traced (Dealing κ) α) before held where
  ordered := ⟨before, .nil before⟩
  ended := nofun

theorem Accounts.emit {dealing : Dealing κ} (leads : Leads [dealing] before after) :
    Accounts (emit dealing) before fun _ => after where
  ordered := ⟨after, leads⟩
  ended _ _ := leads

theorem Accounts.bind {next : α → Traced (Dealing κ) β} (first : Accounts computation before held)
    (second : ∀ value, computation.outcome = some value →
      Accounts (next value) (held value) final) :
    Accounts (computation >>= next) before final := by
  obtain ⟨events, outcome⟩ := computation
  cases outcome with
  | none =>
      refine ⟨first.ordered, fun value ended => ?_⟩
      rw [outcome_bind] at ended
      cases ended
  | some value =>
      have here := first.ended value rfl
      obtain ⟨⟨after, later⟩, last⟩ := second value rfl
      refine ⟨⟨after, here.append later⟩, fun result ended => here.append (last result ?_)⟩
      rwa [outcome_bind] at ended

end Custody
