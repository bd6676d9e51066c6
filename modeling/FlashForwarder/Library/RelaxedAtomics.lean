import Mathlib.Data.List.Forall2
import Mathlib.Data.List.Infix
import Mathlib.Data.List.Pairwise
import Mathlib.Logic.Function.Basic
import Mathlib.Order.Defs.PartialOrder

/-!
# Relaxed atomics

One thread stores into atomic variables and others load them, in relaxed order: nothing is said of
two variables together.  Of one variable a load may give any value stored so far that is not older
than the one which the same thread has loaded of it last.
-/

/-- Atomic variables, each with its own type of values. -/
structure RelaxedAtomics (ι : Type*) (V : ι → Type*) (ρ : Type*) where
  /-- The values of a variable, the oldest first. -/
  stored : (index : ι) → List (V index)
  /-- The place of the value that a thread has last loaded of a variable. -/
  seen : ρ → ι → Nat

namespace RelaxedAtomics

variable {ι ρ : Type*} {V : ι → Type*} [DecidableEq ι] [DecidableEq ρ]

omit [DecidableEq ι] [DecidableEq ρ] in
/-- Variables that have their first values. -/
def init (initial : (index : ι) → V index) : RelaxedAtomics ι V ρ where
  stored index := [initial index]
  seen _ _ := 0

variable (atomics : RelaxedAtomics ι V ρ)

omit [DecidableEq ρ] in
/-- A value is stored. -/
def store (target : ι) (value : V target) : RelaxedAtomics ι V ρ :=
  { atomics with
    stored := Function.update atomics.stored target (atomics.stored target ++ [value]) }

/-- A thread loads the value at some place, if it may. -/
def load (reader : ρ) (source : ι) (place : Nat) : Option (V source × RelaxedAtomics ι V ρ) :=
  if atomics.seen reader source ≤ place then
    (atomics.stored source)[place]?.map fun value =>
      (value,
        { atomics with
          seen := Function.update atomics.seen reader
            (Function.update (atomics.seen reader) source place) })
  else none

variable {atomics} {next : RelaxedAtomics ι V ρ} {reader : ρ} {source target : ι} {place : Nat}

omit [DecidableEq ρ] in
@[simp] theorem stored_store (value : V target) :
    (atomics.store target value).stored target = atomics.stored target ++ [value] :=
  Function.update_self ..

omit [DecidableEq ρ] in
@[simp] theorem stored_store_of_ne (value : V target) (other : source ≠ target) :
    (atomics.store target value).stored source = atomics.stored source :=
  Function.update_of_ne other ..

omit [DecidableEq ρ] in
@[simp] theorem seen_store (value : V target) :
    (atomics.store target value).seen = atomics.seen := rfl

omit [DecidableEq ρ] in
theorem stored_prefix_store (value : V target) (source : ι) :
    atomics.stored source <+: (atomics.store target value).stored source := by
  by_cases same : source = target
  · subst same
    rw [stored_store]
    exact List.prefix_append _ _
  · rw [stored_store_of_ne value same]

section

variable {value : V source} (loaded : atomics.load reader source place = some (value, next))
include loaded

/-- A load takes a value that was stored, and none that is older than the last one. -/
theorem load_spec : atomics.seen reader source ≤ place ∧
    (atomics.stored source)[place]? = some value ∧ next.stored = atomics.stored ∧
    next.seen = Function.update atomics.seen reader
      (Function.update (atomics.seen reader) source place) := by
  rw [load] at loaded
  split at loaded
  · rename_i later
    obtain ⟨found, here, same⟩ := Option.map_eq_some_iff.mp loaded
    obtain ⟨rfl, rfl⟩ := Prod.mk.inj same
    exact ⟨later, here, rfl, rfl⟩
  · cases loaded

theorem stored_of_load : next.stored = atomics.stored := (load_spec loaded).2.2.1

theorem getElem?_seen_of_load :
    (atomics.stored source)[next.seen reader source]? = some value := by
  obtain ⟨-, here, -, seen⟩ := load_spec loaded
  rwa [seen, Function.update_self, Function.update_self]

theorem seen_of_load_of_ne {other : ι} (ne : other ≠ source) :
    next.seen reader other = atomics.seen reader other := by
  rw [(load_spec loaded).2.2.2, Function.update_self, Function.update_of_ne ne]

theorem seen_of_load_of_other {other : ρ} (ne : other ≠ reader) :
    next.seen other = atomics.seen other := by
  rw [(load_spec loaded).2.2.2, Function.update_of_ne ne]

theorem seen_le_of_load (index : ι) : atomics.seen reader index ≤ next.seen reader index := by
  by_cases same : index = source
  · subst same
    obtain ⟨later, -, -, seen⟩ := load_spec loaded
    rwa [seen, Function.update_self, Function.update_self]
  · exact (seen_of_load_of_ne loaded same).ge

end

/-! ## What one thread loads of one variable -/

/-- The values were loaded from places that do not go back, none behind the bound. -/
def Forward {α : Type*} (history : List α) (bound : Nat) (values : List α) : Prop :=
  ∃ places : List Nat, places.Pairwise (· ≤ ·) ∧ (∀ place ∈ places, place ≤ bound) ∧
    List.Forall₂ (fun place value => history[place]? = some value) places values

section

variable {α : Type*} {history later values : List α} {bound bound' : Nat} {value : α}

theorem Forward.nil : Forward history bound [] :=
  ⟨[], .nil, by simp, .nil⟩

theorem getElem?_of_more (more : history <+: later) (here : history[place]? = some value) :
    later[place]? = some value := by
  obtain ⟨rest, rfl⟩ := more
  rw [List.getElem?_append_left (List.getElem?_eq_some_iff.mp here).1]
  exact here

/-- More is stored, or the thread has loaded something else. -/
theorem Forward.mono (forward : Forward history bound values) (more : history <+: later)
    (within : bound ≤ bound') : Forward later bound' values := by
  obtain ⟨places, sorted, bounded, found⟩ := forward
  exact ⟨places, sorted, fun place member => (bounded place member).trans within,
    found.imp fun _ _ here => getElem?_of_more more here⟩

theorem Forward.concat (forward : Forward history bound values) (within : bound ≤ place)
    (here : history[place]? = some value) : Forward history place (values ++ [value]) := by
  obtain ⟨places, sorted, bounded, found⟩ := forward
  refine ⟨places ++ [place], ?_, ?_, List.rel_append found (.cons here .nil)⟩
  · refine List.pairwise_append.mpr ⟨sorted, List.pairwise_singleton _ _, ?_⟩
    rintro earlier member _ (_ | ⟨_, ⟨⟩⟩)
    exact (bounded earlier member).trans within
  · rintro other member
    rcases List.mem_append.mp member with earlier | last
    · exact (bounded other earlier).trans within
    · exact (List.mem_singleton.mp last).le

/-- If the values of a variable belong to moments that do not go back, then so do those loaded. -/
theorem Forward.along {μ : Type*} [Preorder μ] {belongs : μ → α → Prop} {moments : List μ}
    (forward : Forward history bound values) (sorted : moments.Pairwise (· ≤ ·))
    (told : List.Forall₂ belongs moments history) :
    ∃ picked : List μ, picked.Pairwise (· ≤ ·) ∧ List.Forall₂ belongs picked values := by
  obtain ⟨places, ordered, -, found⟩ := forward
  suffices ∃ picked : List μ, picked.Pairwise (· ≤ ·) ∧ List.Forall₂ belongs picked values ∧
      ∀ moment ∈ picked, ∃ place ∈ places, moments[place]? = some moment by
    obtain ⟨picked, inOrder, fit, -⟩ := this
    exact ⟨picked, inOrder, fit⟩
  induction found with
  | nil => exact ⟨[], .nil, .nil, by simp⟩
  | @cons place value places values here _ ih =>
      obtain ⟨first, rest⟩ := List.pairwise_cons.mp ordered
      obtain ⟨picked, inOrder, fit, among⟩ := ih rest
      obtain ⟨bound, rfl⟩ := List.getElem?_eq_some_iff.mp here
      have inside : place < moments.length := told.length_eq ▸ bound
      refine ⟨moments[place] :: picked, List.pairwise_cons.mpr ⟨fun moment member => ?_, inOrder⟩,
        .cons (told.get inside bound) fit, ?_⟩
      · obtain ⟨later, chosen, at_later⟩ := among moment member
        obtain ⟨within, rfl⟩ := List.getElem?_eq_some_iff.mp at_later
        rcases (first later chosen).eq_or_lt with rfl | before
        · exact le_rfl
        · exact List.pairwise_iff_getElem.mp sorted place later inside within before
      · rintro moment (_ | ⟨_, member⟩)
        · exact ⟨place, List.mem_cons_self .., List.getElem?_eq_getElem inside⟩
        · obtain ⟨later, chosen, at_later⟩ := among moment member
          exact ⟨later, List.mem_cons_of_mem _ chosen, at_later⟩

end

end RelaxedAtomics
